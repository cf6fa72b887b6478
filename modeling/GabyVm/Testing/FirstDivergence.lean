import GabyVm.Testing.ShadowRunner

/-!
# What the lockstep oracle reports

For step functions that do nothing at the null program counter and something
elsewhere, the loop reports exactly the first round after which the compared
state of the two simulators differs.
-/

namespace GabyVm.Testing

open GabyVm.Aarch64
open GabyVm.Engine
open GabyVm.Foundation

/-! ## Lists with a padding -/

theorem getD_eq_iff {α : Type} {pad : α} {xs ys : List α} (hxs : pad ∉ xs) (hys : pad ∉ ys)
    (i : Nat) : xs[i]?.getD pad = ys[i]?.getD pad ↔ xs[i]? = ys[i]? := by
  constructor
  · intro h
    cases hx : xs[i]? with
    | none =>
        cases hy : ys[i]? with
        | none => rfl
        | some y =>
            rw [hx, hy] at h
            obtain rfl : pad = y := h
            exact absurd (List.mem_of_getElem? hy) hys
    | some x =>
        cases hy : ys[i]? with
        | none =>
            rw [hx, hy] at h
            obtain rfl : x = pad := h
            exact absurd (List.mem_of_getElem? hx) hxs
        | some y =>
            rw [hx, hy] at h
            exact congrArg some h
  · intro h
    rw [h]

theorem findSome?_range_eq_some {β : Type} {f : Nat → Option β} {n : Nat} {b : β}
    (h : (List.range n).findSome? f = some b) :
    ∃ i, i < n ∧ f i = some b ∧ ∀ j, j < i → f j = none := by
  induction n with
  | zero => simp at h
  | succ n ih =>
      rw [List.range_succ, List.findSome?_append] at h
      cases hfirst : (List.range n).findSome? f with
      | some b' =>
          rw [hfirst] at h
          obtain rfl : b' = b := by simpa using h
          obtain ⟨i, hi, hb, hbefore⟩ := ih hfirst
          exact ⟨i, by omega, hb, hbefore⟩
      | none =>
          rw [hfirst] at h
          rw [List.findSome?_eq_none_iff] at hfirst
          refine ⟨n, by omega, by simpa using h, ?_⟩
          intro j hj
          exact hfirst j (List.mem_range.mpr hj)

/-! ## The comparison of one step -/

theorem xItem_mem (i : Fin 31) : xItem i ∈ regItems := by
  simp only [regItems, List.mem_append, List.mem_ofFn]
  exact .inl (.inl (.inl ⟨i, rfl⟩))

theorem vItem_mem (i : Fin 32) : vItem i ∈ regItems := by
  simp only [regItems, List.mem_append, List.mem_ofFn]
  exact .inl (.inr ⟨i, rfl⟩)

theorem spItem_mem : wideItem "SP" (·.sp) ∈ regItems := by
  simp only [regItems, List.mem_append, List.mem_singleton]
  exact .inl (.inl (.inr trivial))

theorem lastItems_mem {item : RegItem}
    (h : item ∈ [wideItem "PC" (·.pc), sysItem "NZCV" (·.nzcv), sysItem "FPCR" (·.fpcr),
      sysItem "FPSR" (·.fpsr), sysItem "BType" (·.btype)]) : item ∈ regItems :=
  List.mem_append_right _ h

theorem eq_of_regItems {f g : RegisterFile} (h : ∀ item ∈ regItems, item.read f = item.read g) :
    f = g := by
  have hx (i : Fin 31) : f.x i = g.x i := congrArg VRegisterValue.lo (h _ (xItem_mem i))
  have hv (i : Fin 32) : f.v i = g.v i := h _ (vItem_mem i)
  have hwide (name : String) (read : RegisterFile → BitVec 64)
      (hmem : wideItem name read ∈ regItems) : read f = read g :=
    congrArg VRegisterValue.lo (h _ hmem)
  have hsys (name : String) (read : RegisterFile → BitVec 32)
      (hmem : sysItem name read ∈ regItems) : read f = read g := by
    have hitem := congrArg (BitVec.setWidth 32) (hwide name _ hmem)
    simpa using hitem
  have hsp := hwide "SP" _ spItem_mem
  have hpc := hwide "PC" (·.pc) (lastItems_mem (by simp))
  have hnzcv := hsys "NZCV" (·.nzcv) (lastItems_mem (by simp))
  have hfpcr := hsys "FPCR" (·.fpcr) (lastItems_mem (by simp))
  have hfpsr := hsys "FPSR" (·.fpsr) (lastItems_mem (by simp))
  have hbtype := hsys "BType" (·.btype) (lastItems_mem (by simp))
  cases f
  cases g
  simp only at hx hv hsp hpc hnzcv hfpcr hfpsr hbtype
  rw [funext hx, funext hv, hsp, hpc, hnzcv, hfpcr, hfpsr, hbtype]

/-- Registers or stores differ after a round. -/
def Runner.Differs (r : Runner) : Prop :=
  r.fast.sim.readAll ≠ r.ref.sim.readAll ∨ r.fast.host ≠ r.ref.host

def Runner.Sized (r : Runner) : Prop := ∀ e, e ∈ r.fast.host ++ r.ref.host → 0 < e.size

/--
The report of the first item that differs after a round: a register item with
its two values, or a store with the address and the size of the first track's
store, if it has one, and the two values stored.
-/
inductive FirstDifferingItem (pc : Addr) (r : Runner) : DivergenceReport → Prop where
  | register {before after : List RegItem} {item : RegItem}
      (hitems : regItems = before ++ item :: after)
      (hbefore : ∀ i ∈ before, i.read r.fast.sim.readAll = i.read r.ref.sim.readAll)
      (hdiffers : item.read r.fast.sim.readAll ≠ item.read r.ref.sim.readAll) :
      FirstDifferingItem pc r (fillRegReport pc item.index item.name
        (item.read r.fast.sim.readAll) (item.read r.ref.sim.readAll))
  | write (hfile : r.fast.sim.readAll = r.ref.sim.readAll) {i : Nat}
      (hbefore : ∀ j, j < i → r.fast.host[j]? = r.ref.host[j]?)
      (hdiffers : r.fast.host[i]? ≠ r.ref.host[i]?) :
      FirstDifferingItem pc r (fillWriteReport pc r.fast.host[i]? r.ref.host[i]?)

theorem compareItem_eq_none {pc : Addr} {f g : RegisterFile} {item : RegItem} :
    compareItem pc f g item = none ↔ item.read f = item.read g := by
  simp [compareItem]

theorem regItems_eq_none {pc : Addr} {f g : RegisterFile} :
    regItems.findSome? (compareItem pc f g) = none ↔ f = g := by
  rw [List.findSome?_eq_none_iff]
  constructor
  · intro h
    exact eq_of_regItems fun item hitem => compareItem_eq_none.mp (h item hitem)
  · rintro rfl item -
    exact compareItem_eq_none.mpr rfl

theorem Runner.Sized.noWrite_notMem {r : Runner} (h : r.Sized) :
    noWrite ∉ r.fast.host ∧ noWrite ∉ r.ref.host := by
  constructor
  · intro hmem
    exact absurd (h noWrite (by simp [hmem])) (by decide)
  · intro hmem
    exact absurd (h noWrite (by simp [hmem])) (by decide)

theorem compareWrite_eq_none {pc : Addr} {r : Runner} (h : r.Sized) {i : Nat} :
    compareWrite pc r.fast.host r.ref.host i = none ↔ r.fast.host[i]? = r.ref.host[i]? := by
  obtain ⟨hfast, href⟩ := h.noWrite_notMem
  simp [compareWrite, getD_eq_iff hfast href]

theorem compareMemoryWrites_eq_none {pc : Addr} {r : Runner} (h : r.Sized) :
    compareMemoryWrites pc r.fast.host r.ref.host = none ↔ r.fast.host = r.ref.host := by
  rw [compareMemoryWrites, List.findSome?_eq_none_iff]
  constructor
  · intro hsame
    apply List.ext_getElem?
    intro i
    by_cases hi : i < max r.fast.host.length r.ref.host.length
    · exact (compareWrite_eq_none h).mp (hsame i (List.mem_range.mpr hi))
    · rw [List.getElem?_eq_none (by omega), List.getElem?_eq_none (by omega)]
  · intro hsame i _
    rw [compareWrite_eq_none h, hsame]

theorem compareStep_eq_none {pc : Addr} {r : Runner} (h : r.Sized) :
    compareStep pc r = none ↔ ¬r.Differs := by
  simp only [compareStep, Option.or_eq_none_iff, regItems_eq_none,
    compareMemoryWrites_eq_none h, Runner.Differs, ne_eq, not_or, not_not]

theorem compareStep_eq_some {pc : Addr} {r : Runner} (h : r.Sized) {report : DivergenceReport}
    (hreport : compareStep pc r = some report) :
    FirstDifferingItem pc r report := by
  rw [compareStep] at hreport
  cases hregs : regItems.findSome? (compareItem pc r.fast.sim.readAll r.ref.sim.readAll) with
  | some report' =>
      rw [hregs] at hreport
      obtain rfl : report' = report := by simpa using hreport
      obtain ⟨before, item, after, hitems, hitem, hbefore⟩ :=
        List.findSome?_eq_some_iff.mp hregs
      rw [compareItem] at hitem
      split_ifs at hitem with hdiffers
      cases hitem
      exact .register hitems (fun i hi => compareItem_eq_none.mp (hbefore i hi)) hdiffers
  | none =>
      rw [hregs, Option.none_or] at hreport
      obtain ⟨i, -, hwrite, hbefore⟩ := findSome?_range_eq_some hreport
      have hdiffers : r.fast.host[i]? ≠ r.ref.host[i]? := by
        intro hsame
        rw [(compareWrite_eq_none h).mpr hsame] at hwrite
        cases hwrite
      rw [compareWrite] at hwrite
      split_ifs at hwrite
      cases hwrite
      exact .write (regItems_eq_none.mp hregs)
        (fun j hj => (compareWrite_eq_none h).mp (hbefore j hj)) hdiffers

/-! ## Rounds -/

/-- Like a step of the simulator, nothing is done exactly at the null program counter. -/
structure LikeStepOnce (step : Act (List MemoryWriteEvent) Bool) : Prop where
  finished : ∀ w, w.core.pc = 0 → step w = .ok false w
  alive : ∀ w more v, w.core.pc ≠ 0 → step w = .ok more v → more = true

section Rounds

variable {stepFast stepRef : Act (List MemoryWriteEvent) Bool}

def roundCalls (n : Nat) : List RunnerCall :=
  (List.replicate n [RunnerCall.stepOnce, .debugStepOnce]).flatten

theorem roundCalls_succ (n : Nat) :
    roundCalls (n + 1) = roundCalls n ++ [.stepOnce, .debugStepOnce] := by
  simp [roundCalls, List.replicate_succ']

theorem runRound_eq_ok {r t : Runner} {alive : Bool × Bool}
    (h : runRound stepFast stepRef r = .ok alive t) :
    ∃ w v, stepFast (clearWrites r.fast) = .ok alive.1 w ∧
      stepRef (withShared (clearWrites r.ref) (sharedOf w)) = .ok alive.2 v ∧
      t = (r.clear.setFast w).setRef v := by
  simp only [runRound, Action.bind_apply, Action.modify_apply, Outcome.bind_ok] at h
  obtain ⟨fastAlive, u, hfast, h⟩ := Outcome.bind_eq_ok.mp h
  obtain ⟨refAlive, x, href, h⟩ := Outcome.bind_eq_ok.mp h
  cases h
  rw [runFast] at hfast
  cases hw : stepFast r.clear.fast with
  | ok more w =>
      rw [hw] at hfast
      cases hfast
      rw [runRef] at href
      cases hv : stepRef (r.clear.setFast w).ref with
      | ok more v =>
          rw [hv] at href
          cases href
          exact ⟨w, v, hw, hv, rfl⟩
      | abort reason v =>
          rw [hv] at href
          cases href
      | timeout =>
          rw [hv] at href
          cases href
  | abort reason w =>
      rw [hw] at hfast
      cases hfast
  | timeout =>
      rw [hw] at hfast
      cases hfast

theorem runRound_eq_abort {r t : Runner} {reason : RunnerAbort}
    (h : runRound stepFast stepRef r = .abort reason t) :
    ∃ e made, reason = .simulator e ∧ t.calls = r.calls ++ made ∧
      made <+: [.stepOnce, .debugStepOnce] := by
  simp only [runRound, Action.bind_apply, Action.modify_apply, Outcome.bind_ok] at h
  rcases Outcome.bind_eq_abort.mp h with hfast | ⟨fastAlive, u, hfast, h⟩
  · rw [runFast] at hfast
    split at hfast
    · cases hfast
    · cases hfast
      exact ⟨_, [.stepOnce], rfl, rfl, ⟨_, rfl⟩⟩
    · cases hfast
  · rw [runFast] at hfast
    split at hfast
    · cases hfast
      rcases Outcome.bind_eq_abort.mp h with href | ⟨refAlive, x, href, h⟩
      · rw [runRef] at href
        split at href
        · cases href
        · cases href
          exact ⟨_, _, rfl, List.append_assoc .., List.prefix_rfl⟩
        · cases href
      · cases h
    · cases hfast
    · cases hfast

theorem calls_after {n : Nat} {r t : Runner} (h : After (runRound stepFast stepRef) n r t) :
    t.calls = r.calls ++ roundCalls n := by
  induction h with
  | zero => simp [roundCalls]
  | succ _ hround ih =>
      obtain ⟨w, v, -, -, rfl⟩ := runRound_eq_ok hround
      rw [roundCalls_succ, ← List.append_assoc, ← ih]
      exact List.append_assoc ..

/-- At the loop top the registers agree. -/
def Runner.Equal (r : Runner) : Prop := r.fast.sim.readAll = r.ref.sim.readAll

theorem Runner.Equal.pc {r : Runner} (h : r.Equal) : r.ref.core.pc = r.fast.core.pc :=
  (congrArg RegisterFile.pc h).symm

/-- With equal registers both simulators are alive or both are finished. -/
theorem alive_iff (hfast : LikeStepOnce stepFast) (href : LikeStepOnce stepRef) {r t : Runner}
    {alive : Bool × Bool} (h : r.Equal) (hround : runRound stepFast stepRef r = .ok alive t) :
    r.fast.core.pc = 0 ∧ alive = (false, false) ∧ t.fast.core.pc = 0 ∧ t.Equal ∧ ¬t.Differs ∨
      r.fast.core.pc ≠ 0 ∧ alive = (true, true) := by
  obtain ⟨fastAlive, refAlive⟩ := alive
  obtain ⟨w, v, hw, hv, rfl⟩ := runRound_eq_ok hround
  have hpc := h.pc
  by_cases hnull : r.fast.core.pc = 0
  · left
    rw [hfast.finished (clearWrites r.fast) hnull] at hw
    cases hw
    rw [href.finished (withShared (clearWrites r.ref) (sharedOf (clearWrites r.fast)))
      (hpc.trans hnull)] at hv
    cases hv
    refine ⟨hnull, rfl, hnull, h, ?_⟩
    rintro (hfile | hwrites)
    · exact hfile h
    · exact hwrites rfl
  · right
    have hnull' : r.ref.core.pc ≠ 0 := fun hzero => hnull (hpc.symm.trans hzero)
    have hfastAlive := hfast.alive (clearWrites r.fast) _ _ hnull hw
    have hrefAlive := href.alive (withShared (clearWrites r.ref) (sharedOf w)) _ _ hnull' hv
    exact ⟨hnull, Prod.ext hfastAlive hrefAlive⟩

/-! ## The first round that differs -/

/-- Round `k + 1` is the first after which the compared state differs. -/
structure FirstDivergence (stepFast stepRef : Act (List MemoryWriteEvent) Bool) (r : Runner)
    (k : Nat) (before after : Runner) : Prop where
  reached : After (runRound stepFast stepRef) k r before
  round : ∃ alive, runRound stepFast stepRef before = .ok alive after
  differs : after.Differs
  first : ∀ n, n < k → ∀ t, After (runRound stepFast stepRef) (n + 1) r t → ¬t.Differs

theorem equal_of_noDifference {k : Nat} {r before : Runner} (hstart : r.Equal)
    (hreached : After (runRound stepFast stepRef) k r before)
    (hfirst : ∀ n, n < k → ∀ t, After (runRound stepFast stepRef) (n + 1) r t → ¬t.Differs) :
    before.Equal := by
  cases hreached with
  | zero => exact hstart
  | @succ n _ t _ _ h hround =>
      by_contra hne
      exact hfirst n (by omega) before (h.succ hround) (.inl hne)

theorem finished_stays (hfast : LikeStepOnce stepFast) (href : LikeStepOnce stepRef) {n : Nat}
    {r t : Runner} (hequal : r.Equal) (hpc : r.fast.core.pc = 0)
    (h : After (runRound stepFast stepRef) (n + 1) r t) :
    t.fast.core.pc = 0 ∧ t.Equal ∧ ¬t.Differs := by
  have hkeeps (u v : Runner) (alive : Bool × Bool) (hu : u.fast.core.pc = 0 ∧ u.Equal)
      (hround : runRound stepFast stepRef u = .ok alive v) :
      v.fast.core.pc = 0 ∧ v.Equal ∧ ¬v.Differs := by
    rcases alive_iff hfast href hu.2 hround with ⟨-, -, hv⟩ | ⟨hne, -⟩
    · exact hv
    · exact absurd hu.1 hne
  cases h with
  | succ h hround =>
      have hlast := h.invariant (P := fun u => u.fast.core.pc = 0 ∧ u.Equal)
        (fun u alive v hu hround =>
          ⟨(hkeeps u v alive hu hround).1, (hkeeps u v alive hu hround).2.1⟩) ⟨hpc, hequal⟩
      exact hkeeps _ _ _ hlast hround

theorem checkRound_eq (hfast : LikeStepOnce stepFast) (href : LikeStepOnce stepRef)
    {before after : Runner} {alive : Bool × Bool} (h : before.Equal)
    (hround : runRound stepFast stepRef before = .ok alive after) :
    checkRound before alive after =
      if before.fast.core.pc = 0 then some .terminated
      else (compareStep before.fast.core.pc after).map .diverged := by
  rcases alive_iff hfast href h hround with ⟨hpc, rfl, -⟩ | ⟨hpc, rfl⟩
  · rw [if_pos hpc]
    rfl
  · rw [if_neg hpc]
    simp only [checkRound]
    cases compareStep before.fast.core.pc after <;> rfl

/-- In every run from here the stores of each round have a size. -/
def AllSized (stepFast stepRef : Act (List MemoryWriteEvent) Bool) (r : Runner) : Prop :=
  ∀ n t, After (runRound stepFast stepRef) (n + 1) r t → t.Sized

theorem noDifference_of_passes (hfast : LikeStepOnce stepFast) (href : LikeStepOnce stepRef)
    {r : Runner} (hstart : r.Equal) (hsized : AllSized stepFast stepRef r) {k : Nat}
    (h : Passes (runRound stepFast stepRef) checkRound k r) :
    ∀ n, n < k → ∀ t, After (runRound stepFast stepRef) (n + 1) r t → ¬t.Differs := by
  induction k with
  | zero =>
      intro n hn
      omega
  | succ k ih =>
      have hbefore := ih (h.mono (by omega))
      intro n hn t ht
      by_cases hlast : n < k
      · exact hbefore n hlast t ht
      · obtain rfl : n = k := by omega
        have hsize := hsized n t ht
        cases ht with
        | succ hv hround =>
            have hequal := equal_of_noDifference hstart hv hbefore
            have hcheck := h n hn _ _ _ hv hround
            rw [checkRound_eq hfast href hequal hround] at hcheck
            split_ifs at hcheck
            rw [Option.map_eq_none_iff] at hcheck
            exact (compareStep_eq_none hsize).mp hcheck

theorem FirstDivergence.alive (hfast : LikeStepOnce stepFast) (href : LikeStepOnce stepRef)
    {r before after : Runner} (hstart : r.Equal) {k : Nat}
    (h : FirstDivergence stepFast stepRef r k before after) {n : Nat} (hn : n ≤ k) {t : Runner}
    (ht : After (runRound stepFast stepRef) n r t) :
    t.Equal ∧ t.fast.core.pc ≠ 0 := by
  have hequal : t.Equal :=
    equal_of_noDifference hstart ht fun m hm => h.first m (by omega)
  refine ⟨hequal, fun hnull => ?_⟩
  obtain ⟨alive, hround⟩ := h.round
  have hall : After (runRound stepFast stepRef) (n + (k - n + 1)) r after := by
    have hk : n + (k - n + 1) = k + 1 := by omega
    rw [hk]
    exact h.reached.succ hround
  obtain ⟨t', ht', hrest⟩ := hall.split
  obtain rfl := ht.det ht'
  exact (finished_stays hfast href hequal hnull hrest).2.2 h.differs

theorem FirstDivergence.passes (hfast : LikeStepOnce stepFast) (href : LikeStepOnce stepRef)
    {r before after : Runner} (hstart : r.Equal) (hsized : AllSized stepFast stepRef r) {k : Nat}
    (h : FirstDivergence stepFast stepRef r k before after) :
    Passes (runRound stepFast stepRef) checkRound k r := by
  intro n hn t alive u ht hround
  obtain ⟨hequal, hpc⟩ := h.alive hfast href hstart hn.le ht
  have hu := ht.succ hround
  rw [checkRound_eq hfast href hequal hround, if_neg hpc, Option.map_eq_none_iff,
    compareStep_eq_none (hsized n u hu)]
  exact h.first n hn u hu

def handled (report : DivergenceReport) (after : Runner) :
    Outcome RunnerAbort Runner RunnerEnd :=
  (callHandler report after).bind fun _ t => .ok (.diverged report) t

/-! ## The result of a lockstep run -/

/-- What a lockstep run from `r` can come to. -/
inductive LockstepResult (stepFast stepRef : Act (List MemoryWriteEvent) Bool) (r : Runner) :
    Outcome RunnerAbort Runner RunnerEnd → Prop where
  /-- The first round that differs is reported, and nothing is stepped after it. -/
  | reported {k : Nat} {before after : Runner} {report : DivergenceReport}
      (hfirst : FirstDivergence stepFast stepRef r k before after)
      (hitem : FirstDifferingItem before.fast.core.pc after report)
      (hcalls : after.calls = r.calls ++ roundCalls (k + 1)) :
      LockstepResult stepFast stepRef r (handled report after)
  /-- No round differs, and both simulators are finished. -/
  | silent {k : Nat} {t : Runner} (hreached : After (runRound stepFast stepRef) (k + 1) r t)
      (hagree : ∀ n u, After (runRound stepFast stepRef) (n + 1) r u → ¬u.Differs)
      (hfast : t.fast.core.pc = 0) (href : t.ref.core.pc = 0)
      (hcalls : t.calls = r.calls ++ roundCalls (k + 1)) :
      LockstepResult stepFast stepRef r (.ok .terminated t)
  /-- A step aborts before any handler is called. -/
  | aborted {k : Nat} {reason : Abort} {t : Runner} {made : List RunnerCall}
      (hcalls : t.calls = r.calls ++ roundCalls k ++ made)
      (hmade : made <+: [.stepOnce, .debugStepOnce]) :
      LockstepResult stepFast stepRef r (.abort (.simulator reason) t)
  | timeout : LockstepResult stepFast stepRef r .timeout

theorem runnerRunFrom_apply {fuel : Nat} {entry : Addr} {r : Runner} :
    runnerRunFrom stepFast stepRef fuel entry r =
      (watch (runRound stepFast stepRef) checkRound fuel (r.seat entry)).bind fun reason t =>
        match reason with
        | .diverged report => handled report t
        | reason => .ok reason t := by
  simp only [runnerRunFrom, Action.bind_apply, Action.modify_apply, Outcome.bind_ok]
  congr 1
  funext reason t
  cases reason <;> rfl

theorem runnerRunFrom_result (hfast : LikeStepOnce stepFast) (href : LikeStepOnce stepRef)
    {r : Runner} {entry : Addr} (hstart : (r.seat entry).Equal)
    (hsized : AllSized stepFast stepRef (r.seat entry)) (fuel : Nat) :
    LockstepResult stepFast stepRef (r.seat entry)
      (runnerRunFrom stepFast stepRef fuel entry r) := by
  rw [runnerRunFrom_apply]
  cases hwatch : watch (runRound stepFast stepRef) checkRound fuel (r.seat entry) with
  | ok reason after =>
      obtain ⟨k, before, alive, -, hreached, hpasses, hround, hcheck⟩ := watch_eq_ok.mp hwatch
      have hfirst := noDifference_of_passes hfast href hstart hsized hpasses
      have hequal := equal_of_noDifference hstart hreached hfirst
      have hafter := hreached.succ hround
      rw [checkRound_eq hfast href hequal hround] at hcheck
      split_ifs at hcheck with hpc
      · cases hcheck
        refine .silent hafter ?_ ?_ ?_ (calls_after hafter)
        · intro n u hu
          by_cases hn : n < k
          · exact hfirst n hn u hu
          · have hsplit : n + 1 = k + (n - k + 1) := by omega
            rw [hsplit] at hu
            obtain ⟨t, ht, hrest⟩ := hu.split
            obtain rfl := hreached.det ht
            exact (finished_stays hfast href hequal hpc hrest).2.2
        · exact (finished_stays hfast href hequal hpc (.succ (.zero before) hround)).1
        · have hlast := finished_stays hfast href hequal hpc (.succ (.zero before) hround)
          exact hlast.2.1.pc.trans hlast.1
      · obtain ⟨report, hreport, rfl⟩ := Option.map_eq_some_iff.mp hcheck
        have hsize := hsized k after hafter
        refine .reported ⟨hreached, ⟨alive, hround⟩, ?_, hfirst⟩
          (compareStep_eq_some hsize hreport) (calls_after hafter)
        by_contra hsame
        rw [(compareStep_eq_none hsize).mpr hsame] at hreport
        cases hreport
  | abort reason after =>
      obtain ⟨k, before, -, hreached, -, hround⟩ := watch_eq_abort.mp hwatch
      obtain ⟨e, made, rfl, hcalls, hmade⟩ := runRound_eq_abort hround
      rw [calls_after hreached] at hcalls
      exact .aborted hcalls hmade
  | timeout => exact .timeout

/-- Given enough fuel, the first round that differs is reported. -/
theorem FirstDivergence.isHandled (hfast : LikeStepOnce stepFast) (href : LikeStepOnce stepRef)
    {r before after : Runner} {entry : Addr} (hstart : (r.seat entry).Equal)
    (hsized : AllSized stepFast stepRef (r.seat entry)) {k : Nat}
    (h : FirstDivergence stepFast stepRef (r.seat entry) k before after) {fuel : Nat}
    (hfuel : k < fuel) :
    ∃ report, FirstDifferingItem before.fast.core.pc after report ∧
      runnerRunFrom stepFast stepRef fuel entry r = handled report after := by
  obtain ⟨alive, hround⟩ := h.round
  obtain ⟨hequal, hpc⟩ := h.alive hfast href hstart le_rfl h.reached
  have hsize := hsized k after (h.reached.succ hround)
  cases hreport : compareStep before.fast.core.pc after with
  | none => exact absurd h.differs ((compareStep_eq_none hsize).mp hreport)
  | some report =>
      have hcheck : checkRound before alive after = some (.diverged report) := by
        rw [checkRound_eq hfast href hequal hround, if_neg hpc, hreport]
        rfl
      have hwatch := watch_eq_ok.mpr ⟨k, before, alive, hfuel, h.reached,
        h.passes hfast href hstart hsized, hround, hcheck⟩
      refine ⟨report, compareStep_eq_some hsize hreport, ?_⟩
      rw [runnerRunFrom_apply, hwatch]
      rfl

/--
The lockstep run reports the first round after which the compared state
differs, if there is one, and only that: the handler is called at most once,
with the first differing item, and nothing is stepped after it.
-/
theorem lockstep_reports_first (hfast : LikeStepOnce stepFast) (href : LikeStepOnce stepRef)
    {r : Runner} {entry : Addr} (hstart : r.Equal)
    (hsized : AllSized stepFast stepRef (r.seat entry)) :
    (∀ fuel, LockstepResult stepFast stepRef (r.seat entry)
      (runnerRunFrom stepFast stepRef fuel entry r)) ∧
    ∀ k before after, FirstDivergence stepFast stepRef (r.seat entry) k before after →
      ∀ fuel, k < fuel → ∃ report, FirstDifferingItem before.fast.core.pc after report ∧
        runnerRunFrom stepFast stepRef fuel entry r = handled report after := by
  have hseated : (r.seat entry).Equal := by
    rw [Runner.Equal] at hstart ⊢
    exact congrArg (fun f : RegisterFile => { f with pc := addressUntag entry }) hstart
  refine ⟨fun fuel => runnerRunFrom_result hfast href hseated hsized fuel, ?_⟩
  intro k before after h fuel hfuel
  exact h.isHandled hfast href hseated hsized hfuel

end Rounds

/-! ## Stores that differ in their address only -/

/-- A step that makes one store and ends the run. -/
def storingStep (event : MemoryWriteEvent) : Act (List MemoryWriteEvent) Bool := fun w =>
  if w.core.pc = 0 then .ok false w
  else .ok true { w.setCore (w.core.writePc 0) with host := w.host ++ [event] }

theorem storingStep_like (event : MemoryWriteEvent) : LikeStepOnce (storingStep event) where
  finished w hpc := by rw [storingStep, if_pos hpc]
  alive w more v hpc h := by
    rw [storingStep, if_neg hpc] at h
    cases h
    rfl

theorem storingStep_host {event : MemoryWriteEvent} {w v : Watched} {more : Bool}
    (hcleared : w.host = []) (h : storingStep event w = .ok more v) :
    ∀ e ∈ v.host, e = event := by
  intro e he
  simp only [storingStep] at h
  split_ifs at h
  · cases h
    rw [hcleared] at he
    cases he
  · cases h
    simpa [hcleared] using he

theorem storingStep_sized {event event' : MemoryWriteEvent} (h : 0 < event.size)
    (h' : 0 < event'.size) (r : Runner) :
    AllSized (storingStep event) (storingStep event') r := by
  intro n t ht e he
  cases ht with
  | succ _ hround =>
      obtain ⟨w, v, hw, hv, rfl⟩ := runRound_eq_ok hround
      rcases List.mem_append.mp he with he | he
      · rw [storingStep_host rfl hw e he]
        exact h
      · rw [storingStep_host rfl hv e he]
        exact h'

/-- Two stores of one value to different addresses. -/
def storeLow : MemoryWriteEvent := ⟨0x2000, 8, 1, 0⟩

def storeHigh : MemoryWriteEvent := ⟨0x2008, 8, 1, 0⟩

def emptyRunner : Runner := (Runner.construct none (fun _ => 0) 0).setDivergenceHandler true

theorem lockstep_reports_first_stores :
    (∀ fuel, LockstepResult (storingStep storeLow) (storingStep storeHigh)
      (emptyRunner.seat 0x1000)
      (runnerRunFrom (storingStep storeLow) (storingStep storeHigh) fuel 0x1000 emptyRunner)) ∧
    ∀ k before after, FirstDivergence (storingStep storeLow) (storingStep storeHigh)
        (emptyRunner.seat 0x1000) k before after →
      ∀ fuel, k < fuel → ∃ report, FirstDifferingItem before.fast.core.pc after report ∧
        runnerRunFrom (storingStep storeLow) (storingStep storeHigh) fuel 0x1000 emptyRunner =
          handled report after :=
  lockstep_reports_first (storingStep_like storeLow) (storingStep_like storeHigh) rfl
    (storingStep_sized (by decide) (by decide) _)

/-- The report of two stores that differ in their address has the same value twice. -/
theorem differentAddress_sameValues :
    ∃ report t, runnerRunFrom (storingStep storeLow) (storingStep storeHigh) 1 0x1000
        emptyRunner = .ok (.diverged report) t ∧
      t.fast.host = [storeLow] ∧ t.ref.host = [storeHigh] ∧ storeLow ≠ storeHigh ∧
      t.fast.sim.readAll = t.ref.sim.readAll ∧ report.kind = .memoryWrite ∧
      report.memFastLo = report.memRefLo ∧ report.memFastHi = report.memRefHi ∧
      report.memAddr ≠ storeHigh.address := by
  refine ⟨fillWriteReport 0x1000 storeLow storeHigh, _, rfl, rfl, rfl, by decide, rfl, rfl, rfl,
    rfl, by decide⟩

end GabyVm.Testing
