import Mathlib.Tactic.Ring
import GabyVm.Foundation.OrderedTable

/-!
Half-open intervals over machine words.

An interval is a first word and a size.  Membership is the single unsigned
test `p - start < size`; it agrees with the order of the natural numbers as
long as the interval does not run past the last word.  The usual overlap test
compares the two wrapped ends.  It is exact when neither interval runs up to or
past the last word, and `Seen` says what it answers for all intervals.
-/

namespace GabyVm.Foundation

instance instLinearOrderBitVec (w : Nat) : LinearOrder (BitVec w) where
  le_refl := BitVec.le_refl
  le_trans _ _ _ := BitVec.le_trans
  lt_iff_le_not_ge _ _ := by simp only [BitVec.lt_def, BitVec.le_def]; omega
  le_antisymm _ _ := BitVec.le_antisymm
  le_total := BitVec.le_total
  toDecidableLE := inferInstance
  toDecidableLT := inferInstance

structure Interval (w : Nat) where
  start : BitVec w
  size : BitVec w
  deriving DecidableEq, Repr

namespace Interval

variable {w : Nat}

/-- Membership by one wrapped subtraction. -/
def Covers (r : Interval w) (p : BitVec w) : Prop := p - r.start < r.size

instance (r : Interval w) (p : BitVec w) : Decidable (r.Covers p) :=
  inferInstanceAs (Decidable (_ < _))

/-- The last word of the interval is not past the last word there is. -/
def NoWrap (r : Interval w) : Prop := r.start.toNat + r.size.toNat ≤ 2 ^ w

instance (r : Interval w) : Decidable r.NoWrap :=
  inferInstanceAs (Decidable (_ ≤ _))

def finish (r : Interval w) : BitVec w := r.start + r.size

/-- The interval runs up to the very last word, so that its end wraps to zero. -/
def EndsAtTop (r : Interval w) : Prop := r.start.toNat + r.size.toNat = 2 ^ w

def Disjoint (r s : Interval w) : Prop := ∀ p, ¬(r.Covers p ∧ s.Covers p)

/-- The overlap test on wrapped ends. -/
def overlaps (r s : Interval w) : Bool := r.start < s.finish && s.start < r.finish

theorem covers_iff {r : Interval w} (h : r.NoWrap) (p : BitVec w) :
    r.Covers p ↔ r.start.toNat ≤ p.toNat ∧ p.toNat < r.start.toNat + r.size.toNat := by
  have hp := p.isLt
  have hs := r.start.isLt
  rw [Covers, BitVec.lt_def, BitVec.toNat_sub]
  unfold NoWrap at h
  by_cases hle : r.start.toNat ≤ p.toNat
  · have hsub : (2 ^ w - r.start.toNat + p.toNat) % 2 ^ w = p.toNat - r.start.toNat := by
      rw [show 2 ^ w - r.start.toNat + p.toNat = p.toNat - r.start.toNat + 2 ^ w by omega,
        Nat.add_mod_right, Nat.mod_eq_of_lt (by omega)]
    rw [hsub]
    omega
  · have hsub : (2 ^ w - r.start.toNat + p.toNat) % 2 ^ w =
        2 ^ w - r.start.toNat + p.toNat := Nat.mod_eq_of_lt (by omega)
    rw [hsub]
    omega

theorem covers_start {r : Interval w} (h : 0 < r.size.toNat) : r.Covers r.start := by
  rw [Covers, BitVec.sub_self, BitVec.lt_def]
  simpa using h

theorem finish_toNat {r : Interval w} (h : r.NoWrap) (htop : ¬r.EndsAtTop) :
    r.finish.toNat = r.start.toNat + r.size.toNat := by
  unfold NoWrap at h
  unfold EndsAtTop at htop
  rw [finish, BitVec.toNat_add, Nat.mod_eq_of_lt (by omega)]

theorem finish_eq_zero {r : Interval w} (htop : r.EndsAtTop) : r.finish = 0#w := by
  apply BitVec.eq_of_toNat_eq
  unfold EndsAtTop at htop
  rw [finish, BitVec.toNat_add, htop]
  simp

theorem disjoint_iff {r s : Interval w} (hr : r.NoWrap) (hs : s.NoWrap)
    (hrpos : 0 < r.size.toNat) (hspos : 0 < s.size.toNat) :
    r.Disjoint s ↔
      s.start.toNat + s.size.toNat ≤ r.start.toNat ∨
        r.start.toNat + r.size.toNat ≤ s.start.toNat := by
  constructor
  · intro h
    by_contra hmeet
    have hrstart := h r.start
    have hsstart := h s.start
    rw [covers_iff hr, covers_iff hs] at hrstart hsstart
    omega
  · rintro h p ⟨hrp, hsp⟩
    rw [covers_iff hr] at hrp
    rw [covers_iff hs] at hsp
    omega

/-- A positive overlap test is never wrong. -/
theorem not_disjoint_of_overlaps {r s : Interval w} (hr : r.NoWrap) (hs : s.NoWrap)
    (hrpos : 0 < r.size.toNat) (hspos : 0 < s.size.toNat)
    (h : r.overlaps s = true) :
    ¬r.Disjoint s := by
  simp only [overlaps, Bool.and_eq_true, decide_eq_true_eq, BitVec.lt_def] at h
  obtain ⟨h1, h2⟩ := h
  have hstop : ¬s.EndsAtTop := by
    intro htop
    rw [finish_eq_zero htop] at h1
    simp at h1
  have hrtop : ¬r.EndsAtTop := by
    intro htop
    rw [finish_eq_zero htop] at h2
    simp at h2
  rw [finish_toNat hs hstop] at h1
  rw [finish_toNat hr hrtop] at h2
  rw [disjoint_iff hr hs hrpos hspos]
  omega

/-- The overlap test misses an overlap only at the wrapped end. -/
theorem overlaps_iff {r s : Interval w} (hr : r.NoWrap) (hs : s.NoWrap)
    (hrpos : 0 < r.size.toNat) (hspos : 0 < s.size.toNat)
    (hrtop : ¬r.EndsAtTop) (hstop : ¬s.EndsAtTop) :
    r.overlaps s = true ↔ ¬r.Disjoint s := by
  rw [disjoint_iff hr hs hrpos hspos]
  simp only [overlaps, Bool.and_eq_true, decide_eq_true_eq, BitVec.lt_def]
  rw [finish_toNat hr hrtop, finish_toNat hs hstop]
  omega

theorem Disjoint.symm {r s : Interval w} (h : r.Disjoint s) : s.Disjoint r :=
  fun p hp => h p ⟨hp.2, hp.1⟩

/-! ### Intervals that run past the last word -/

/-- The interval runs up to the last word, or past it and on from the first. -/
def ReachesTop (r : Interval w) : Prop := 2 ^ w ≤ r.start.toNat + r.size.toNat

instance (r : Interval w) : Decidable r.ReachesTop :=
  inferInstanceAs (Decidable (_ ≤ _))

theorem covers_iff_wrapped {r : Interval w} {p : BitVec w} :
    r.Covers p ↔
      (r.start.toNat ≤ p.toNat ∧ p.toNat < r.start.toNat + r.size.toNat) ∨
        p.toNat + 2 ^ w < r.start.toNat + r.size.toNat := by
  have hp := p.isLt
  have hstart := r.start.isLt
  have hsize := r.size.isLt
  rw [Covers, BitVec.lt_def]
  by_cases hle : r.start.toNat ≤ p.toNat
  · rw [BitVec.toNat_sub_of_le (BitVec.le_def.mpr hle)]
    omega
  · rw [BitVec.toNat_sub, Nat.mod_eq_of_lt (by omega)]
    omega

theorem finish_toNat_of_reachesTop {r : Interval w} (h : r.ReachesTop) :
    r.finish.toNat = r.start.toNat + r.size.toNat - 2 ^ w := by
  have hstart := r.start.isLt
  have hsize := r.size.isLt
  unfold ReachesTop at h
  rw [finish, BitVec.toNat_add, Nat.mod_eq_sub_mod h, Nat.mod_eq_of_lt (by omega)]

theorem finish_toNat_of_not_reachesTop {r : Interval w} (h : ¬r.ReachesTop) :
    r.finish.toNat = r.start.toNat + r.size.toNat := by
  unfold ReachesTop at h
  rw [finish, BitVec.toNat_add, Nat.mod_eq_of_lt (by omega)]

/-- The ways in which two intervals meet that the overlap test sees. -/
inductive Seen (r s : Interval w) : Prop where
  | inside (hr : ¬r.ReachesTop) (hs : ¬s.ReachesTop) (h : ¬r.Disjoint s)
  | around (hone : r.ReachesTop ↔ ¬s.ReachesTop) (hne : r.start ≠ s.start)
      (hr : r.Covers s.start) (hs : s.Covers r.start)

theorem Seen.not_disjoint {r s : Interval w} (hspos : 0 < s.size.toNat) (h : r.Seen s) :
    ¬r.Disjoint s := by
  cases h with
  | inside hr hs h => exact h
  | around hone hne hr hs => exact fun hdis => hdis s.start ⟨hr, covers_start hspos⟩

theorem Seen.symm {r s : Interval w} (h : r.Seen s) : s.Seen r := by
  cases h with
  | inside hr hs h => exact .inside hs hr fun hdis => h hdis.symm
  | around hone hne hr hs => exact .around (by tauto) hne.symm hs hr

theorem overlaps_comm (r s : Interval w) : r.overlaps s = s.overlaps r := Bool.and_comm _ _

theorem overlaps_iff_around {r s : Interval w} (hr : r.ReachesTop) (hs : ¬s.ReachesTop) :
    r.overlaps s = true ↔ r.start ≠ s.start ∧ r.Covers s.start ∧ s.Covers r.start := by
  have hrsize := r.size.isLt
  have hsstart := s.start.isLt
  simp only [overlaps, Bool.and_eq_true, decide_eq_true_eq, BitVec.lt_def]
  rw [finish_toNat_of_reachesTop hr, finish_toNat_of_not_reachesTop hs, covers_iff_wrapped,
    covers_iff_wrapped, ne_eq, ← BitVec.toNat_inj]
  unfold ReachesTop at hr hs
  omega

/-- What the overlap test sees, whatever the two ends are. -/
theorem overlaps_iff_seen {r s : Interval w} (hrpos : 0 < r.size.toNat)
    (hspos : 0 < s.size.toNat) :
    r.overlaps s = true ↔ r.Seen s := by
  by_cases hr : r.ReachesTop <;> by_cases hs : s.ReachesTop
  · -- Both ends have wrapped, and lie at or below both starts.
    have hover : r.overlaps s = false := by
      have hrsize := r.size.isLt
      have hssize := s.size.isLt
      rw [Bool.eq_false_iff]
      simp only [overlaps, ne_eq, Bool.and_eq_true, decide_eq_true_eq, BitVec.lt_def]
      rw [finish_toNat_of_reachesTop hr, finish_toNat_of_reachesTop hs]
      omega
    rw [hover]
    constructor
    · nofun
    · rintro (⟨h, -, -⟩ | ⟨h, -, -, -⟩)
      · exact absurd hr h
      · exact absurd hs (h.mp hr)
  · rw [overlaps_iff_around hr hs]
    constructor
    · rintro ⟨hne, hrs, hsr⟩
      exact .around ⟨fun _ => hs, fun _ => hr⟩ hne hrs hsr
    · rintro (⟨h, -, -⟩ | ⟨-, hne, hrs, hsr⟩)
      · exact absurd hr h
      · exact ⟨hne, hrs, hsr⟩
  · rw [overlaps_comm, overlaps_iff_around hs hr]
    constructor
    · rintro ⟨hne, hsr, hrs⟩
      exact .around ⟨fun h => absurd h hr, fun h => absurd hs h⟩ hne.symm hrs hsr
    · rintro (⟨-, h, -⟩ | ⟨-, hne, hrs, hsr⟩)
      · exact absurd hs h
      · exact ⟨hne.symm, hsr, hrs⟩
  · have hrwrap : r.NoWrap := by
      unfold ReachesTop at hr
      unfold NoWrap
      omega
    have hswrap : s.NoWrap := by
      unfold ReachesTop at hs
      unfold NoWrap
      omega
    rw [overlaps_iff hrwrap hswrap hrpos hspos (fun h => hr (Nat.le_of_eq h.symm))
      (fun h => hs (Nat.le_of_eq h.symm))]
    constructor
    · exact .inside hr hs
    · exact Seen.not_disjoint hspos

end Interval

/-! ## Tables of intervals keyed by their start -/

section IntervalTable

variable {w : Nat} {α : Type} (size : α → BitVec w)

def entryInterval (e : BitVec w × α) : Interval w := ⟨e.1, size e.2⟩

/-- The predecessor of `p`, when its interval covers `p`. -/
def locate (t : OrderedTable (BitVec w) α) (p : BitVec w) : Option (BitVec w × α) :=
  match t.floor p with
  | some e => if (entryInterval size e).Covers p then some e else none
  | none => none

structure DisjointTable (t : OrderedTable (BitVec w) α) : Prop where
  noWrap : ∀ e ∈ t.entries, (entryInterval size e).NoWrap
  positive : ∀ e ∈ t.entries, 0 < (size e.2).toNat
  disjoint : ∀ e ∈ t.entries, ∀ e' ∈ t.entries, e.1 ≠ e'.1 →
    (entryInterval size e).Disjoint (entryInterval size e')

variable {size}

theorem locate_sound {t : OrderedTable (BitVec w) α} {p : BitVec w} {e : BitVec w × α}
    (h : locate size t p = some e) :
    e ∈ t.entries ∧ (entryInterval size e).Covers p := by
  unfold locate at h
  split at h
  · rename_i e' hfloor
    split_ifs at h with hc
    cases h
    exact ⟨(OrderedTable.floor_eq_some.mp hfloor).1, hc⟩
  · cases h

/-- In a table of disjoint intervals, `locate` finds the one that covers `p`. -/
theorem locate_eq_some {t : OrderedTable (BitVec w) α} (ht : DisjointTable size t)
    {p : BitVec w} {e : BitVec w × α} :
    locate size t p = some e ↔ e ∈ t.entries ∧ (entryInterval size e).Covers p := by
  constructor
  · exact locate_sound
  · rintro ⟨he, hcov⟩
    have hrange := (Interval.covers_iff (ht.noWrap e he) p).mp hcov
    have hfloor : t.floor p = some e := by
      refine OrderedTable.floor_eq_some.mpr ⟨he, BitVec.le_def.mpr hrange.1, ?_⟩
      intro x hx hxp
      by_contra hlt
      have hne : x.1 ≠ e.1 := fun heq => hlt (heq ▸ BitVec.le_refl _)
      have hxp' := BitVec.le_def.mp hxp
      have hlt' : e.1.toNat < x.1.toNat := BitVec.lt_def.mp (not_le.mp hlt)
      refine ht.disjoint e he x hx hne.symm x.1 ⟨?_, Interval.covers_start (ht.positive x hx)⟩
      rw [Interval.covers_iff (ht.noWrap e he)]
      exact ⟨hlt'.le, lt_of_le_of_lt hxp' hrange.2⟩
    simp [locate, hfloor, hcov]

theorem DisjointTable.put {t : OrderedTable (BitVec w) α} (ht : DisjointTable size t)
    {k : BitVec w} {a : α} (hwrap : (entryInterval size (k, a)).NoWrap)
    (hpos : 0 < (size a).toNat)
    (hdis : ∀ e ∈ t.entries, (entryInterval size e).Disjoint (entryInterval size (k, a))) :
    DisjointTable size (t.put k a) where
  noWrap := by
    intro e he
    rcases OrderedTable.mem_put.mp he with rfl | ⟨he, -⟩
    · exact hwrap
    · exact ht.noWrap e he
  positive := by
    intro e he
    rcases OrderedTable.mem_put.mp he with rfl | ⟨he, -⟩
    · exact hpos
    · exact ht.positive e he
  disjoint := by
    intro e he e' he' hne
    rcases OrderedTable.mem_put.mp he with rfl | ⟨he, -⟩
    · rcases OrderedTable.mem_put.mp he' with rfl | ⟨he', -⟩
      · exact absurd rfl hne
      · exact (hdis e' he').symm
    · rcases OrderedTable.mem_put.mp he' with rfl | ⟨he', -⟩
      · exact hdis e he
      · exact ht.disjoint e he e' he' hne

theorem DisjointTable.empty : DisjointTable size (OrderedTable.empty : OrderedTable (BitVec w) α) where
  noWrap := by simp [OrderedTable.empty]
  positive := by simp [OrderedTable.empty]
  disjoint := by simp [OrderedTable.empty]

end IntervalTable

end GabyVm.Foundation
