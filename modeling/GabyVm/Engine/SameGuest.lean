import GabyVm.Engine.Process

/-!
# Processes that are the same for one simulator

Live simulators hold different slots of the table of stacks.  Two processes are
the same for a simulator when they differ, for it, in the memory of others only.
-/

namespace GabyVm.Engine

open GabyVm.Aarch64
open GabyVm.Cache
open GabyVm.Foundation

variable {τ : Type} {R : Regions} {i j : Nat}

/-! ## The stacks of live simulators -/

namespace Process

/-- Live simulators hold their slots, and different ones. -/
structure Seated (p : Process τ) : Prop where
  holds : ∀ i m, p.members i = some m → p.gcsManager.Holds m.gcs
  apart : ∀ i j m m', p.members i = some m → p.members j = some m' →
    m.gcs.ptr = m'.gcs.ptr → i = j

theorem initial_seated (memory : Memory) (cache : Bool → PredecodeCache) (mteActive : Bool) :
    (initial (τ := τ) memory cache mteActive).Seated where
  holds := by simp [initial]
  apart := by simp [initial]

@[simp] theorem members_setMember (p : Process τ) (i j : Nat) (m : Option (Member τ)) :
    (p.setMember i m).members j = if j = i then m else p.members j := rfl

/-- Who holds which stack is all that the invariant is about. -/
theorem Seated.congr {p p' : Process τ} (h : p.Seated)
    (hholds : ∀ g, p.gcsManager.Holds g → p'.gcsManager.Holds g)
    (hmembers : ∀ k, (p'.members k).map Member.gcs = (p.members k).map Member.gcs) :
    p'.Seated := by
  have hback (k : Nat) (m : Member τ) (hm : p'.members k = some m) :
      ∃ n, p.members k = some n ∧ n.gcs = m.gcs := by
    have hgcs := hmembers k
    rw [hm, Option.map_some, eq_comm, Option.map_eq_some_iff] at hgcs
    exact hgcs
  constructor
  · intro k m hm
    obtain ⟨n, hn, hgcs⟩ := hback k m hm
    exact hholds m.gcs (hgcs ▸ h.holds k n hn)
  · intro k l m m' hm hm' hptr
    obtain ⟨n, hn, hgcs⟩ := hback k m hm
    obtain ⟨n', hn', hgcs'⟩ := hback l m' hm'
    exact h.apart k l n n' hn hn' (by rw [hgcs, hgcs', hptr])

theorem Seated.save {p : Process τ} (h : p.Seated) {m : Member τ} (hm : p.members i = some m)
    (w : World τ) : (p.save i m.gcs w).Seated := by
  refine h.congr (fun g hg => hg.setStorage _ _) fun k => ?_
  simp only [Process.save, members_setMember]
  split_ifs with hk
  · rw [hk, hm]
    rfl
  · rfl

theorem Seated.leave {p : Process τ} (h : p.Seated) {m : Member τ} (hm : p.members i = some m) :
    ((p.setManager (p.gcsManager.release (getGCSIndexFromToken m.gcs.token) m.gcs.ptr)).setMember
      i none).Seated where
  holds := by
    intro k n hn
    simp only [members_setMember] at hn
    split_ifs at hn with hk
    exact (h.holds i m hm).release (h.holds k n hn) fun hptr => hk (h.apart k i n m hn hm hptr)
  apart := by
    intro k l n n' hn hn' hptr
    simp only [members_setMember] at hn hn'
    split_ifs at hn hn'
    exact h.apart k l n n' hn hn' hptr

theorem Seated.enter {p : Process τ} (h : p.Seated) (i : Nat) (w : World τ)
    (entries : List Addr) :
    ((p.setManager (p.gcsManager.allocateStackInternal.2.setStorage
        p.gcsManager.allocateStackInternal.1.ptr entries)).setMember i
      (some ⟨w, p.gcsManager.allocateStackInternal.1⟩)).Seated where
  holds := by
    intro k n hn
    simp only [members_setMember] at hn
    split_ifs at hn with hk
    · cases hn
      exact p.gcsManager.allocateStackInternal_holds
    · exact (h.holds k n hn).allocate
  apart := by
    intro k l n n' hn hn' hptr
    simp only [members_setMember] at hn hn'
    split_ifs at hn hn' with hk hl hl
    · exact hk.trans hl.symm
    · cases hn
      exact absurd hptr.symm (h.holds l n' hn').ptr_ne_allocated
    · cases hn'
      exact absurd hptr (h.holds k n hn).ptr_ne_allocated
    · exact h.apart k l n n' hn hn' hptr

/-! ### Loading and saving -/

theorem load_save (p : Process τ) (i : Nat) (g : GuardedControlStack) (w : World τ) :
    (p.save i g w).load ⟨w, g⟩ = { w with cache := some (p.cache p.mteActive) } := by
  have hstorage : (p.save i g w).gcsManager.storage g.ptr = w.core.gcs :=
    p.gcsManager.setStorage_self g.ptr w.core.gcs
  simp only [load, hstorage]
  rfl

theorem load_elsewhere {p p' : Process τ} {m : Member τ} (hflag : p'.mteActive = p.mteActive)
    (hcache : p'.cache = p.cache)
    (hstorage : p'.gcsManager.storage m.gcs.ptr = p.gcsManager.storage m.gcs.ptr) :
    p'.load m = (p.load m).setCore ((p.load m).core.withMemory p'.memory) := by
  simp only [load, hflag, hcache, hstorage]
  rfl

end Process

/-! ## Processes that are the same for one simulator -/

structure SameFor (R : Regions) (i : Nat) (p q : Process τ) : Prop where
  mteActive : q.mteActive = p.mteActive
  cache : q.cache = p.cache
  memory : AgreeOutside (R.foreign i) p.memory q.memory
  guest : Option.Rel (fun m m' => SameBut (R.foreign i) (p.load m) (q.load m'))
    (p.members i) (q.members i)
  seated : p.Seated
  seated' : q.Seated

namespace SameFor

variable {p q p' : Process τ}

theorem members (h : SameFor R i p q) :
    (p.members i = none ∧ q.members i = none) ∨
      ∃ m m', p.members i = some m ∧ q.members i = some m' ∧
        SameBut (R.foreign i) (p.load m) (q.load m') := by
  have hguest := h.guest
  generalize p.members i = o at hguest
  generalize q.members i = o' at hguest
  cases hguest with
  | none => exact .inl ⟨rfl, rfl⟩
  | some hsame => exact .inr ⟨_, _, rfl, rfl, hsame⟩

theorem loaded (h : SameFor R i p q) {m m' : Member τ} (hm : p.members i = some m)
    (hm' : q.members i = some m') : SameBut (R.foreign i) (p.load m) (q.load m') := by
  obtain ⟨hp, -⟩ | ⟨n, n', hp, hq, hsame⟩ := h.members
  · rw [hm] at hp
    cases hp
  · rw [hm] at hp
    rw [hm'] at hq
    cases hp
    cases hq
    exact hsame

/-- What another simulator does elsewhere makes no difference. -/
theorem elsewhere (h : SameFor R i p q) (hflag : p'.mteActive = p.mteActive)
    (hcache : p'.cache = p.cache) (hmem : AgreeOutside (R.foreign i) p.memory p'.memory)
    (hmember : p'.members i = p.members i)
    (hstorage : ∀ m, p.members i = some m →
      p'.gcsManager.storage m.gcs.ptr = p.gcsManager.storage m.gcs.ptr)
    (hseated : p'.Seated) : SameFor R i p' q where
  mteActive := h.mteActive.trans hflag.symm
  cache := h.cache.trans hcache.symm
  memory a ha := (h.memory a ha).trans (hmem a ha).symm
  guest := by
    rw [hmember]
    obtain ⟨hp, hq⟩ | ⟨m, m', hp, hq, mem, hagree, hload⟩ := h.members
    · rw [hp, hq]
      exact .none
    · rw [hp, hq]
      refine .some ⟨mem, ?_, ?_⟩
      · intro a ha
        exact (hagree a ha).trans (hmem a ha).symm
      · rw [hload, Process.load_elsewhere hflag hcache (hstorage m hp)]
        rfl
  seated := hseated
  seated' := h.seated'

theorem save (h : SameFor R i p q) {m m' : Member τ} (hm : p.members i = some m)
    (hm' : q.members i = some m') {w w' : World τ} (hw : SameBut (R.foreign i) w w') :
    SameFor R i (p.save i m.gcs w) (q.save i m'.gcs w') where
  mteActive := h.mteActive
  cache := h.cache
  memory := by
    obtain ⟨mem, hmem, rfl⟩ := hw
    exact hmem
  guest := by
    have hp : (p.save i m.gcs w).members i = some ⟨w, m.gcs⟩ := if_pos rfl
    have hq : (q.save i m'.gcs w').members i = some ⟨w', m'.gcs⟩ := if_pos rfl
    rw [hp, hq]
    refine .some ?_
    rw [Process.load_save, Process.load_save, h.mteActive, h.cache]
    obtain ⟨mem, hmem, rfl⟩ := hw
    exact ⟨mem, hmem, rfl⟩
  seated := h.seated.save hm w
  seated' := h.seated'.save hm' w'

theorem saveOther (h : SameFor R i p q) (hj : j ≠ i) {m : Member τ} (hm : p.members j = some m)
    {w : World τ} (hmem : AgreeOutside (R.region j) p.memory w.core.memory) :
    SameFor R i (p.save j m.gcs w) q := by
  refine h.elsewhere rfl rfl ?_ (if_neg (Ne.symm hj)) ?_ (h.seated.save hm w)
  · intro a ha
    exact hmem a fun hown => ha ⟨j, hj, hown⟩
  · intro n hn
    exact p.gcsManager.setStorage_ne _ fun hptr => hj (h.seated.apart j i m n hm hn hptr.symm)

theorem setActive (h : SameFor R i p q) (value : Bool) :
    SameFor R i { p with mteActive := value } { q with mteActive := value } where
  mteActive := rfl
  cache := h.cache
  memory := h.memory
  guest := by
    obtain ⟨hp, hq⟩ | ⟨m, m', hp, hq, mem, hagree, hload⟩ := h.members
    · simp only [hp, hq]
      exact .none
    · simp only [hp, hq]
      refine .some ⟨mem, hagree, ?_⟩
      have hcached (r : Process τ) (n : Member τ) : { r with mteActive := value }.load n =
          { r.load n with cache := some (r.cache value) } := rfl
      rw [hcached, hcached, hload, h.cache]
      rfl
  seated := ⟨h.seated.holds, h.seated.apart⟩
  seated' := ⟨h.seated'.holds, h.seated'.apart⟩

end SameFor

theorem onMember_some {p : Process τ} {m : Member τ} (hm : p.members i = some m)
    (x : Act τ Bool) : onMember i x p = p.saveOutcome i m.gcs (x (p.load m)) := by
  simp only [onMember, hm]

theorem onMember_eq_ok {p p' : Process τ} {m : Member τ} {x : Act τ Bool} {more : Bool}
    (hm : p.members i = some m) (h : onMember i x p = .ok more p') :
    ∃ w, x (p.load m) = .ok more w ∧ p' = p.save i m.gcs w := by
  rw [onMember_some hm] at h
  cases hx : x (p.load m) with
  | ok answer w =>
      rw [hx] at h
      cases h
      exact ⟨w, rfl, rfl⟩
  | abort reason w =>
      rw [hx] at h
      cases h
  | timeout =>
      rw [hx] at h
      cases h

theorem onMember_memory {p p' : Process τ} {x : Act τ Bool} {more : Bool}
    (h : onMember i x p = .ok more p')
    (hx : ∀ m v, x (p.load m) = .ok more v → v.core.memory = p.memory) :
    p'.memory = p.memory := by
  cases hp : p.members i with
  | none =>
      simp only [onMember, hp] at h
      cases h
      rfl
  | some m =>
      obtain ⟨v, hv, rfl⟩ := onMember_eq_ok hp h
      exact hx m v hv

theorem SameFor.onMember {p q : Process τ} (h : SameFor R i p q) {m m' : Member τ}
    (hm : p.members i = some m) (hm' : q.members i = some m') {x : Act τ Bool}
    (hx : Outcome.Rel (SameBut (R.foreign i)) (SameBut (R.foreign i)) (x (p.load m))
      (x (q.load m'))) :
    Outcome.Rel (SameFor R i) (SameFor R i) (onMember i x p) (onMember i x q) := by
  rw [onMember_some hm, onMember_some hm']
  generalize x (p.load m) = o at hx
  generalize x (q.load m') = o' at hx
  cases hx with
  | ok hw => exact .ok (h.save hm hm' hw)
  | abort hw => exact .abort (h.save hm hm' hw)
  | timeout => exact .timeout

end GabyVm.Engine
