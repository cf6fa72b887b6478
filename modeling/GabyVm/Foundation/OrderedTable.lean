import Mathlib.Order.Defs.LinearOrder
import Mathlib.Order.Lattice
import Mathlib.Data.List.Basic

/-!
Tables sorted by key, with predecessor lookup.

An `OrderedTable` is a list of key and value pairs in strictly increasing key
order; the order is a field, so an unsorted table cannot be built.  `floor`
answers the entry with the greatest key at most the one asked for, which is
the predecessor of an upper bound search.
-/

namespace GabyVm.Foundation

variable {κ α : Type} [LinearOrder κ]

/-- Insert a pair in key order, replacing the value of a key already there. -/
def insertEntry (k : κ) (a : α) : List (κ × α) → List (κ × α)
  | [] => [(k, a)]
  | entry :: rest =>
      if k < entry.1 then (k, a) :: entry :: rest
      else if entry.1 < k then entry :: insertEntry k a rest
      else (k, a) :: rest

theorem mem_insertEntry {k : κ} {a : α} {e : κ × α} {entries : List (κ × α)}
    (h : e ∈ insertEntry k a entries) :
    e = (k, a) ∨ e ∈ entries := by
  induction entries with
  | nil => exact .inl (by simpa [insertEntry] using h)
  | cons entry rest ih =>
      rw [insertEntry] at h
      split_ifs at h with hlt hgt
      · simpa using h
      · rcases List.mem_cons.mp h with h | h
        · exact .inr (by simp [h])
        · rcases ih h with h | h
          · exact .inl h
          · exact .inr (by simp [h])
      · rcases List.mem_cons.mp h with h | h
        · exact .inl h
        · exact .inr (by simp [h])

theorem insertEntry_sorted (k : κ) (a : α) {entries : List (κ × α)}
    (h : entries.Pairwise fun x y => x.1 < y.1) :
    (insertEntry k a entries).Pairwise fun x y => x.1 < y.1 := by
  induction entries with
  | nil => simp [insertEntry]
  | cons entry rest ih =>
      obtain ⟨hhead, hrest⟩ := List.pairwise_cons.mp h
      rw [insertEntry]
      split_ifs with hlt hgt
      · refine List.pairwise_cons.mpr ⟨?_, h⟩
        intro e he
        rcases List.mem_cons.mp he with rfl | he
        · exact hlt
        · exact hlt.trans (hhead e he)
      · refine List.pairwise_cons.mpr ⟨?_, ih hrest⟩
        intro e he
        rcases mem_insertEntry he with rfl | he
        · exact hgt
        · exact hhead e he
      · have hk : entry.1 = k := le_antisymm (not_lt.mp hlt) (not_lt.mp hgt)
        refine List.pairwise_cons.mpr ⟨?_, hrest⟩
        intro e he
        exact hk ▸ hhead e he

structure OrderedTable (κ α : Type) [LinearOrder κ] where
  entries : List (κ × α)
  sorted : entries.Pairwise fun x y => x.1 < y.1

namespace OrderedTable

def empty : OrderedTable κ α := ⟨[], List.Pairwise.nil⟩

instance : Inhabited (OrderedTable κ α) := ⟨empty⟩

def lookup (t : OrderedTable κ α) (k : κ) : Option α :=
  (t.entries.find? fun e => e.1 = k).map Prod.snd

def put (t : OrderedTable κ α) (k : κ) (a : α) : OrderedTable κ α :=
  ⟨insertEntry k a t.entries, insertEntry_sorted k a t.sorted⟩

/-- The entry before the first one whose key is above `k`. -/
def floor (t : OrderedTable κ α) (k : κ) : Option (κ × α) :=
  (t.entries.takeWhile fun e => e.1 ≤ k).getLast?

/-! ## Membership and lookup -/

private theorem pairwise_eq {entries : List (κ × α)}
    (h : entries.Pairwise fun x y => x.1 < y.1) {x y : κ × α}
    (hx : x ∈ entries) (hy : y ∈ entries) (hk : x.1 = y.1) :
    x = y := by
  induction entries with
  | nil => cases hx
  | cons entry rest ih =>
      obtain ⟨hhead, hrest⟩ := List.pairwise_cons.mp h
      rcases List.mem_cons.mp hx with hx' | hx'
      · rcases List.mem_cons.mp hy with hy' | hy'
        · rw [hx', hy']
        · exact absurd (hx' ▸ hk) (hhead y hy').ne
      · rcases List.mem_cons.mp hy with hy' | hy'
        · exact absurd (hy' ▸ hk).symm (hhead x hx').ne
        · exact ih hrest hx' hy'

theorem eq_of_mem {t : OrderedTable κ α} {x y : κ × α}
    (hx : x ∈ t.entries) (hy : y ∈ t.entries) (hk : x.1 = y.1) :
    x = y :=
  pairwise_eq t.sorted hx hy hk

theorem lookup_eq_some {t : OrderedTable κ α} {k : κ} {a : α} :
    t.lookup k = some a ↔ (k, a) ∈ t.entries := by
  constructor
  · intro h
    obtain ⟨e, he, hea⟩ := Option.map_eq_some_iff.mp h
    have hk : e.1 = k := by simpa using List.find?_some he
    have hmem := List.mem_of_find?_eq_some he
    rwa [← hk, ← hea]
  · intro h
    cases hfind : t.entries.find? fun e => e.1 = k with
    | none =>
        have hno := List.find?_eq_none.mp hfind (k, a) h
        simp at hno
    | some e =>
        have hk : e.1 = k := by simpa using List.find?_some hfind
        have he := eq_of_mem (List.mem_of_find?_eq_some hfind) h hk
        simp [lookup, hfind, he]

theorem lookup_eq_none {t : OrderedTable κ α} {k : κ} :
    t.lookup k = none ↔ ∀ a, (k, a) ∉ t.entries := by
  constructor
  · intro h a ha
    rw [lookup_eq_some.mpr ha] at h
    cases h
  · intro h
    cases hl : t.lookup k with
    | none => rfl
    | some a => exact absurd (lookup_eq_some.mp hl) (h a)

private theorem mem_insertEntry_iff {k : κ} {a : α} {e : κ × α} {entries : List (κ × α)}
    (h : entries.Pairwise fun x y => x.1 < y.1) :
    e ∈ insertEntry k a entries ↔ e = (k, a) ∨ e ∈ entries ∧ e.1 ≠ k := by
  induction entries with
  | nil => simp [insertEntry]
  | cons entry rest ih =>
      obtain ⟨hhead, hrest⟩ := List.pairwise_cons.mp h
      rw [insertEntry]
      split_ifs with hlt hgt
      · have hne : ∀ x ∈ entry :: rest, x.1 ≠ k := by
          intro x hx
          rcases List.mem_cons.mp hx with rfl | hx
          · exact hlt.ne'
          · exact (hlt.trans (hhead x hx)).ne'
        constructor
        · intro he
          rcases List.mem_cons.mp he with he | he
          · exact .inl he
          · exact .inr ⟨he, hne e he⟩
        · rintro (he | ⟨he, -⟩)
          · simp [he]
          · exact List.mem_cons_of_mem _ he
      · have hne : entry.1 ≠ k := hgt.ne
        rw [List.mem_cons, ih hrest, List.mem_cons]
        constructor
        · rintro (rfl | rfl | ⟨he, hk⟩)
          · exact .inr ⟨.inl rfl, hne⟩
          · exact .inl rfl
          · exact .inr ⟨.inr he, hk⟩
        · rintro (he | ⟨he | he, hk⟩)
          · exact .inr (.inl he)
          · exact .inl he
          · exact .inr (.inr ⟨he, hk⟩)
      · have hk : entry.1 = k := le_antisymm (not_lt.mp hlt) (not_lt.mp hgt)
        rw [List.mem_cons, List.mem_cons]
        constructor
        · rintro (he | he)
          · exact .inl he
          · exact .inr ⟨.inr he, hk ▸ (hhead e he).ne'⟩
        · rintro (he | ⟨rfl | he, hne⟩)
          · exact .inl he
          · exact absurd hk hne
          · exact .inr he

theorem mem_put {t : OrderedTable κ α} {k : κ} {a : α} {e : κ × α} :
    e ∈ (t.put k a).entries ↔ e = (k, a) ∨ e ∈ t.entries ∧ e.1 ≠ k :=
  mem_insertEntry_iff t.sorted

@[simp] theorem lookup_put_self (t : OrderedTable κ α) (k : κ) (a : α) :
    (t.put k a).lookup k = some a :=
  lookup_eq_some.mpr (mem_put.mpr (.inl rfl))

theorem lookup_put_of_ne (t : OrderedTable κ α) {k k' : κ} (a : α) (h : k' ≠ k) :
    (t.put k a).lookup k' = t.lookup k' := by
  cases hl : t.lookup k' with
  | some b =>
      exact lookup_eq_some.mpr (mem_put.mpr (.inr ⟨lookup_eq_some.mp hl, h⟩))
  | none =>
      refine lookup_eq_none.mpr ?_
      intro b hb
      rcases mem_put.mp hb with hb | ⟨hb, -⟩
      · exact h (congrArg Prod.fst hb)
      · exact lookup_eq_none.mp hl b hb

/-! ## Predecessor lookup -/

private theorem mem_takeWhile_le {entries : List (κ × α)} {k : κ} {e : κ × α}
    (h : entries.Pairwise fun x y => x.1 < y.1) :
    e ∈ entries.takeWhile (fun e => e.1 ≤ k) ↔ e ∈ entries ∧ e.1 ≤ k := by
  induction entries with
  | nil => simp
  | cons entry rest ih =>
      obtain ⟨hhead, hrest⟩ := List.pairwise_cons.mp h
      by_cases hk : entry.1 ≤ k
      · rw [List.takeWhile_cons_of_pos (by simpa using hk), List.mem_cons, ih hrest,
          List.mem_cons]
        constructor
        · rintro (rfl | ⟨he, hek⟩)
          · exact ⟨.inl rfl, hk⟩
          · exact ⟨.inr he, hek⟩
        · rintro ⟨he | he, hek⟩
          · exact .inl he
          · exact .inr ⟨he, hek⟩
      · rw [List.takeWhile_cons_of_neg (by simpa using hk)]
        constructor
        · intro he
          cases he
        · rintro ⟨he, hek⟩
          rcases List.mem_cons.mp he with rfl | he
          · exact absurd hek hk
          · exact absurd ((hhead e he).le.trans hek) hk

private theorem le_getLast {entries : List (κ × α)} {e last : κ × α}
    (h : entries.Pairwise fun x y => x.1 < y.1)
    (hlast : entries.getLast? = some last) (he : e ∈ entries) :
    e.1 ≤ last.1 := by
  obtain ⟨front, rfl⟩ := List.getLast?_eq_some_iff.mp hlast
  rcases List.mem_append.mp he with he | he
  · exact ((List.pairwise_append.mp h).2.2 e he last (by simp)).le
  · exact (congrArg Prod.fst (List.mem_singleton.mp he)).le

theorem floor_eq_some {t : OrderedTable κ α} {k : κ} {e : κ × α} :
    t.floor k = some e ↔
      e ∈ t.entries ∧ e.1 ≤ k ∧ ∀ x ∈ t.entries, x.1 ≤ k → x.1 ≤ e.1 := by
  have hsub : (t.entries.takeWhile fun e => e.1 ≤ k).Pairwise fun x y => x.1 < y.1 :=
    t.sorted.sublist (List.takeWhile_sublist _)
  constructor
  · intro h
    obtain ⟨he, hek⟩ := (mem_takeWhile_le t.sorted).mp (List.mem_of_getLast? h)
    refine ⟨he, hek, ?_⟩
    intro x hx hxk
    exact le_getLast hsub h ((mem_takeWhile_le t.sorted).mpr ⟨hx, hxk⟩)
  · rintro ⟨he, hek, hmax⟩
    have hmem := (mem_takeWhile_le t.sorted).mpr ⟨he, hek⟩
    cases hl : (t.entries.takeWhile fun e => e.1 ≤ k).getLast? with
    | none =>
        rw [List.getLast?_eq_none_iff.mp hl] at hmem
        cases hmem
    | some last =>
        obtain ⟨hlast, hlastk⟩ :=
          (mem_takeWhile_le t.sorted).mp (List.mem_of_getLast? hl)
        have hkey : last.1 = e.1 :=
          le_antisymm (hmax last hlast hlastk) (le_getLast hsub hl hmem)
        rw [floor, hl, eq_of_mem hlast he hkey]

theorem floor_eq_none {t : OrderedTable κ α} {k : κ} :
    t.floor k = none ↔ ∀ x ∈ t.entries, k < x.1 := by
  rw [floor, List.getLast?_eq_none_iff, List.eq_nil_iff_forall_not_mem]
  constructor
  · intro h x hx
    by_contra hk
    exact h x ((mem_takeWhile_le t.sorted).mpr ⟨hx, not_lt.mp hk⟩)
  · intro h x hx
    obtain ⟨hx, hk⟩ := (mem_takeWhile_le t.sorted).mp hx
    exact absurd hk (not_le.mpr (h x hx))

theorem floor_put_self {t : OrderedTable κ α} {k p : κ} {a : α} (hle : k ≤ p)
    (hmax : ∀ x ∈ t.entries, x.1 ≤ p → x.1 ≤ k) :
    (t.put k a).floor p = some (k, a) := by
  refine floor_eq_some.mpr ⟨mem_put.mpr (.inl rfl), hle, ?_⟩
  intro x hx hxp
  rcases mem_put.mp hx with rfl | ⟨hx, -⟩
  · exact le_refl _
  · exact hmax x hx hxp

/-- A key above the word, or below its predecessor, does not change the predecessor. -/
theorem floor_put_of_ne {t : OrderedTable κ α} {k p : κ} {a : α}
    (h : p < k ∨ ∃ e, t.floor p = some e ∧ k < e.1) :
    (t.put k a).floor p = t.floor p := by
  cases hfloor : t.floor p with
  | none =>
      have hlt : p < k := by
        rcases h with h | ⟨e, he, -⟩
        · exact h
        · rw [hfloor] at he
          cases he
      refine floor_eq_none.mpr ?_
      intro x hx
      rcases mem_put.mp hx with rfl | ⟨hx, -⟩
      · exact hlt
      · exact floor_eq_none.mp hfloor x hx
  | some e =>
      obtain ⟨he, hep, hmax⟩ := floor_eq_some.mp hfloor
      have hside : p < k ∨ k < e.1 := by
        rcases h with h | ⟨e', he', hlt⟩
        · exact .inl h
        · rw [hfloor] at he'
          cases he'
          exact .inr hlt
      have hne : e.1 ≠ k := by
        rintro rfl
        rcases hside with hlt | hlt
        · exact absurd hep (not_le.mpr hlt)
        · exact lt_irrefl _ hlt
      refine floor_eq_some.mpr ⟨mem_put.mpr (.inr ⟨he, hne⟩), hep, ?_⟩
      intro x hx hxp
      rcases mem_put.mp hx with rfl | ⟨hx, -⟩
      · rcases hside with hlt | hlt
        · exact absurd hxp (not_le.mpr hlt)
        · exact hlt.le
      · exact hmax x hx hxp

end OrderedTable

end GabyVm.Foundation
