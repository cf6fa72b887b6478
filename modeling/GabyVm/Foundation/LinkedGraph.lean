import Mathlib.Data.Finset.Card
import Mathlib.Data.List.Basic
import Mathlib.Tactic.SplitIfs

/-!
Graphs that are built on demand.

A plan says what a named node holds and which nodes it links to, in order.
`build` creates a node, and then fills its links one by one, building a target
first if it is not there yet.  Nodes may be linked to before they are filled,
so a plan with cycles can be built as well.
-/

namespace GabyVm.Foundation

structure LinkedNode (κ ν : Type) where
  node : ν
  links : Nat → Option κ

abbrev LinkedGraph (κ ν : Type) := κ → Option (LinkedNode κ ν)

namespace LinkedGraph

variable {κ ν : Type}

/-! ## Filled nodes -/

section Filled

variable (plan : κ → Option (ν × List κ))

/-- A node with what its plan says, linked to nodes that are there. -/
def Filled (g : LinkedGraph κ ν) (name : κ) : Prop :=
  ∃ node targets, plan name = some (node, targets) ∧
    g name = some ⟨node, fun i => targets[i]?⟩ ∧
    ∀ target ∈ targets, (g target).isSome = true

/-- `g'` has the nodes of `g` as they were, and its other nodes are filled. -/
structure Extends (g g' : LinkedGraph κ ν) : Prop where
  same : ∀ k, (g k).isSome = true → g' k = g k
  filled : ∀ k, g k = none → (g' k).isSome = true → Filled plan g' k

variable {plan}

theorem Filled.mono {g g' : LinkedGraph κ ν} {name : κ} (h : Filled plan g name)
    (hsame : g' name = g name) (hmore : ∀ k, (g k).isSome = true → (g' k).isSome = true) :
    Filled plan g' name := by
  obtain ⟨node, targets, hplan, hname, htargets⟩ := h
  exact ⟨node, targets, hplan, hsame.trans hname, fun t ht => hmore t (htargets t ht)⟩

end Filled

/-! ## Building -/

variable [DecidableEq κ]

def empty : LinkedGraph κ ν := fun _ => none

def create (g : LinkedGraph κ ν) (name : κ) (node : ν) : LinkedGraph κ ν := fun k =>
  if k = name then some ⟨node, fun _ => none⟩ else g k

def link (g : LinkedGraph κ ν) (name : κ) (i : Nat) (target : κ) : LinkedGraph κ ν := fun k =>
  if k = name then
    (g name).map fun n => { n with links := fun j => if j = i then some target else n.links j }
  else g k

theorem link_isSome (g : LinkedGraph κ ν) (name : κ) (i : Nat) (target k : κ) :
    (g.link name i target k).isSome = (g k).isSome := by
  simp only [link]
  split_ifs with h
  · rw [h, Option.isSome_map]
  · rfl

variable (plan : κ → Option (ν × List κ))

/-- Fill the links of a node from number `i` on, with `make` for targets that are not there. -/
def fill (make : κ → LinkedGraph κ ν → Option (LinkedGraph κ ν)) (name : κ) :
    List κ → Nat → LinkedGraph κ ν → Option (LinkedGraph κ ν)
  | [], _, g => some g
  | target :: rest, i, g =>
      (if (g target).isSome then some g else make target g).bind fun g =>
        fill make name rest (i + 1) (g.link name i target)

/-- Build a node, at most `fuel` deep; a name without a plan ends it. -/
def build : Nat → κ → LinkedGraph κ ν → Option (LinkedGraph κ ν)
  | 0, _, _ => none
  | fuel + 1, name, g =>
      (plan name).bind fun (node, targets) =>
        fill (build fuel) name targets 0 (g.create name node)

variable {plan}

/-! ## Filling one node -/

/-- The node `name` is new and has the links before number `i`; the other new nodes are filled. -/
structure Filling (plan : κ → Option (ν × List κ)) (g : LinkedGraph κ ν) (name : κ) (node : ν)
    (targets : List κ) (i : Nat) (g' : LinkedGraph κ ν) : Prop where
  same : ∀ k, k ≠ name → (g k).isSome = true → g' k = g k
  filled : ∀ k, k ≠ name → g k = none → (g' k).isSome = true → Filled plan g' k
  self : g' name = some ⟨node, fun j => if j < i then targets[j]? else none⟩
  linked : ∀ t ∈ targets.take i, (g' t).isSome = true

theorem Filling.start (plan : κ → Option (ν × List κ)) (g : LinkedGraph κ ν) (name : κ)
    (node : ν) (targets : List κ) :
    Filling plan g name node targets 0 (g.create name node) where
  same k hk _ := if_neg hk
  filled k hk hnone hsome := by simp [create, hk, hnone] at hsome
  self := by simp [create]
  linked := by simp

omit [DecidableEq κ] in
theorem Filling.mono {g g' g'' : LinkedGraph κ ν} {name : κ} {node : ν} {targets : List κ}
    {i : Nat} (h : Filling plan g name node targets i g') (hext : Extends plan g' g'') :
    Filling plan g name node targets i g'' where
  same k hk hsome := by
    have hold := h.same k hk hsome
    rw [hext.same k (hold ▸ hsome), hold]
  filled k hk hnone hsome := by
    cases hk' : g' k with
    | none => exact hext.filled k hk' hsome
    | some n =>
        have hthere : (g' k).isSome = true := by simp [hk']
        refine (h.filled k hk hnone hthere).mono (hext.same k hthere) fun m hm => ?_
        rw [hext.same m hm]
        exact hm
  self := by
    rw [hext.same name (by simp [h.self]), h.self]
  linked t ht := by
    rw [hext.same t (h.linked t ht)]
    exact h.linked t ht

theorem Filling.link {g g' : LinkedGraph κ ν} {name target : κ} {node : ν} {targets : List κ}
    {i : Nat} (h : Filling plan g name node targets i g') (htarget : targets[i]? = some target)
    (hthere : (g' target).isSome = true) :
    Filling plan g name node targets (i + 1) (g'.link name i target) where
  same k hk hsome := by rw [LinkedGraph.link, if_neg hk, h.same k hk hsome]
  filled k hk hnone hsome := by
    rw [link_isSome] at hsome
    refine (h.filled k hk hnone hsome).mono (if_neg hk) fun m hm => ?_
    rw [link_isSome]
    exact hm
  self := by
    simp only [LinkedGraph.link, h.self, if_true, Option.map_some, Option.some.injEq,
      LinkedNode.mk.injEq, true_and]
    funext j
    by_cases hj : j = i
    · simp [hj, htarget]
    · have hlt : j < i + 1 ↔ j < i := by omega
      simp [hj, hlt]
  linked t ht := by
    rw [link_isSome]
    rw [List.take_add_one, htarget] at ht
    rcases List.mem_append.mp ht with hold | hnew
    · exact h.linked t hold
    · obtain rfl : t = target := by simpa using hnew
      exact hthere

theorem fill_filling {make : κ → LinkedGraph κ ν → Option (LinkedGraph κ ν)}
    (hmake : ∀ k g g', g k = none → make k g = some g' →
      Extends plan g g' ∧ (g' k).isSome = true)
    {g : LinkedGraph κ ν} {name : κ} {node : ν} {targets : List κ} {rest : List κ} {i : Nat}
    (hrest : targets.drop i = rest) {g' g'' : LinkedGraph κ ν}
    (h : Filling plan g name node targets i g') (hfill : fill make name rest i g' = some g'') :
    Filling plan g name node targets targets.length g'' := by
  induction rest generalizing i g' with
  | nil =>
      obtain rfl : g' = g'' := by simpa [fill] using hfill
      have hlen : targets.length ≤ i := List.drop_eq_nil_iff.mp hrest
      refine ⟨h.same, h.filled, ?_, ?_⟩
      · rw [h.self]
        congr 2
        funext j
        by_cases hj : j < targets.length
        · simp [hj, show j < i by omega]
        · simp [hj]
      · have hlinked := h.linked
        rw [List.take_of_length_le hlen] at hlinked
        rw [List.take_length]
        exact hlinked
  | cons target rest ih =>
      have hget : targets[i]? = some target := by
        rw [← List.head?_drop, hrest, List.head?_cons]
      have htail : targets.drop (i + 1) = rest := by
        rw [← List.tail_drop, hrest, List.tail_cons]
      simp only [fill] at hfill
      split_ifs at hfill with hthere
      · exact ih htail (h.link hget hthere) hfill
      · obtain ⟨g₁, hg₁, hfill⟩ := Option.bind_eq_some_iff.mp hfill
        have hnone : g' target = none := by simpa using hthere
        obtain ⟨hext, hself⟩ := hmake target g' g₁ hnone hg₁
        exact ih htail ((h.mono hext).link hget hself) hfill

/-! ## What is built -/

/-- Building a node leaves what was there alone and fills everything it adds. -/
theorem build_extends {fuel : Nat} {name : κ} {g g' : LinkedGraph κ ν} (hnone : g name = none)
    (h : build plan fuel name g = some g') : Extends plan g g' ∧ (g' name).isSome = true := by
  induction fuel generalizing name g g' with
  | zero => cases h
  | succ fuel ih =>
      simp only [build] at h
      obtain ⟨⟨node, targets⟩, hplan, hfill⟩ := Option.bind_eq_some_iff.mp h
      have hfilling := fill_filling (fun k g g' hk hg => ih hk hg) List.drop_zero
        (Filling.start plan g name node targets) hfill
      have hself : g' name = some ⟨node, fun j => targets[j]?⟩ := by
        rw [hfilling.self]
        congr 2
        funext j
        by_cases hj : j < targets.length
        · simp [hj]
        · simp [hj]
      refine ⟨⟨fun k hk => ?_, fun k hk hsome => ?_⟩, by simp [hself]⟩
      · refine hfilling.same k (fun heq => ?_) hk
        rw [heq, hnone] at hk
        cases hk
      · by_cases heq : k = name
        · subst heq
          refine ⟨node, targets, hplan, hself, fun t ht => hfilling.linked t ?_⟩
          rwa [List.take_length]
        · exact hfilling.filled k heq hk hsome

/-! ## What can be built -/

def missing (names : Finset κ) (g : LinkedGraph κ ν) : Finset κ :=
  names.filter fun k => g k = none

omit [DecidableEq κ] in
theorem missing_subset {names : Finset κ} {g g' : LinkedGraph κ ν}
    (h : ∀ k, (g k).isSome = true → (g' k).isSome = true) :
    missing names g' ⊆ missing names g := by
  intro k hk
  obtain ⟨hname, hnone⟩ := Finset.mem_filter.mp hk
  refine Finset.mem_filter.mpr ⟨hname, ?_⟩
  cases hg : g k with
  | none => rfl
  | some n =>
      have hsome := h k (by simp [hg])
      simp [hnone] at hsome

omit [DecidableEq κ] in
theorem missing_lt {names : Finset κ} {g g' : LinkedGraph κ ν} {name : κ} (hname : name ∈ names)
    (hnone : g name = none) (hsome : (g' name).isSome = true)
    (h : ∀ k, (g k).isSome = true → (g' k).isSome = true) :
    (missing names g').card < (missing names g).card := by
  refine Finset.card_lt_card ?_
  rw [Finset.ssubset_iff_of_subset (missing_subset h)]
  refine ⟨name, Finset.mem_filter.mpr ⟨hname, hnone⟩, fun hmem => ?_⟩
  rw [(Finset.mem_filter.mp hmem).2] at hsome
  cases hsome

theorem fill_isSome {make : κ → LinkedGraph κ ν → Option (LinkedGraph κ ν)} {names : Finset κ}
    {bound : Nat}
    (hmake : ∀ k g, k ∈ names → g k = none → (missing names g).card ≤ bound →
      ∃ g', make k g = some g' ∧ ∀ k, (g k).isSome = true → (g' k).isSome = true)
    {name : κ} {targets : List κ} (htargets : ∀ t ∈ targets, t ∈ names) {i : Nat}
    {g : LinkedGraph κ ν} (hbound : (missing names g).card ≤ bound) :
    ∃ g', fill make name targets i g = some g' ∧
      ∀ k, (g k).isSome = true → (g' k).isSome = true := by
  induction targets generalizing i g with
  | nil => exact ⟨g, rfl, fun _ hk => hk⟩
  | cons target rest ih =>
      have hrest : ∀ t ∈ rest, t ∈ names := fun t ht => htargets t (List.mem_cons_of_mem _ ht)
      have hstep (g₁ : LinkedGraph κ ν)
          (hg₁ : ∀ k, (g k).isSome = true → (g₁ k).isSome = true) :
          ∃ g', fill make name rest (i + 1) (g₁.link name i target) = some g' ∧
            ∀ k, (g k).isSome = true → (g' k).isSome = true := by
        have hmore (k : κ) (hk : (g k).isSome = true) :
            (g₁.link name i target k).isSome = true := by
          rw [link_isSome]
          exact hg₁ k hk
        obtain ⟨g', hfill, hg'⟩ := ih hrest ((Finset.card_le_card (missing_subset hmore)).trans hbound)
        exact ⟨g', hfill, fun k hk => hg' k (hmore k hk)⟩
      simp only [fill]
      split_ifs with hthere
      · exact hstep g fun _ hk => hk
      · have hnone : g target = none := by simpa using hthere
        obtain ⟨g₁, hg₁, hmore⟩ := hmake target g (htargets target List.mem_cons_self) hnone hbound
        rw [hg₁]
        exact hstep g₁ hmore

/-- Among names that are closed under the plan every one can be built. -/
theorem build_isSome {names : Finset κ}
    (hclosed : ∀ k ∈ names, ∃ node targets, plan k = some (node, targets) ∧
      ∀ t ∈ targets, t ∈ names)
    {fuel : Nat} {name : κ} {g : LinkedGraph κ ν} (hname : name ∈ names) (hnone : g name = none)
    (hfuel : (missing names g).card ≤ fuel) :
    ∃ g', build plan fuel name g = some g' ∧
      ∀ k, (g k).isSome = true → (g' k).isSome = true := by
  induction fuel generalizing name g with
  | zero =>
      have hlt : (missing names fun _ => some ⟨(hclosed name hname).choose, fun _ => none⟩).card <
          (missing names g).card := missing_lt hname hnone rfl fun _ _ => rfl
      omega
  | succ fuel ih =>
      obtain ⟨node, targets, hplan, htargets⟩ := hclosed name hname
      have hmore (k : κ) (hk : (g k).isSome = true) : (g.create name node k).isSome = true := by
        simp only [create]
        split_ifs
        · rfl
        · exact hk
      have hlt : (missing names (g.create name node)).card < (missing names g).card :=
        missing_lt hname hnone (by simp [create]) hmore
      obtain ⟨g', hfill, hg'⟩ := fill_isSome (i := 0)
        (fun k g hk hnone hbound => ih hk hnone hbound) htargets
        (show (missing names (g.create name node)).card ≤ fuel by omega)
      refine ⟨g', ?_, fun k hk => hg' k (hmore k hk)⟩
      simp only [build, hplan, Option.bind_some]
      exact hfill

end LinkedGraph

end GabyVm.Foundation
