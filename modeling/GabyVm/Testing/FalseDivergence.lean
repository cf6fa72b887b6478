import GabyVm.Engine.Footprint
import GabyVm.Engine.Reachable
import GabyVm.Engine.StoreEvents
import GabyVm.Testing.FirstDivergence
import Mathlib.Data.Finset.Piecewise
import Mathlib.Data.Fintype.EquivFin

/-!
# A matching run reports no divergence

The two simulators of a runner share the guest memory, so the second executes
each instruction over the memory that the first has left.  Where every
instruction does the same over the memory it leaves, a run on which the tracks
agree is silent.
-/

namespace GabyVm.Testing

open GabyVm.Aarch64
open GabyVm.Cache
open GabyVm.Engine
open GabyVm.Foundation

/-! ## Each track alone -/

/-- A step with the list of its stores started afresh. -/
def soloRound (step : Act (List MemoryWriteEvent) Bool) : Act (List MemoryWriteEvent) Bool :=
  fun w => step (clearWrites w)

/-- The runs of the two tracks, each over its own memory, agree after every instruction. -/
structure AgreeAlone (stepFast stepRef : Act (List MemoryWriteEvent) Bool) (w d : Watched) :
    Prop where
  registers : ∀ n u v, After (soloRound stepFast) n w u → After (soloRound stepRef) n d v →
    u.sim.readAll = v.sim.readAll
  writes : ∀ n u v, After (soloRound stepFast) (n + 1) w u →
    After (soloRound stepRef) (n + 1) d v → u.host = v.host
  completes : ∀ n u, After (soloRound stepFast) n w u → ∃ v, After (soloRound stepRef) n d v

/--
Every instruction that the tracks execute does the same, and leaves what they
share as it is, when the debug track does it over what the cache track's
execution of it leaves.
-/
def RepeatsAlone (stepFast stepRef : Act (List MemoryWriteEvent) Bool) (w d : Watched) : Prop :=
  ∀ n u v more more' u' v', After (soloRound stepFast) n w u → After (soloRound stepRef) n d v →
    soloRound stepFast u = .ok more u' → soloRound stepRef v = .ok more' v' →
    soloRound stepRef (withShared v (sharedOf u')) = .ok more' (withShared v' (sharedOf u'))

/-- A step answers whether the program counter was not null. -/
def AliveAtPc (step : Act (List MemoryWriteEvent) Bool) : Prop :=
  ∀ w more v, step w = .ok more v → (more = true ↔ w.core.pc ≠ 0)

section Rounds

variable {stepFast stepRef : Act (List MemoryWriteEvent) Bool} {w d : Watched} {n : Nat}

/-- The runner's simulators are where the runs alone are, sharing what the first one has. -/
structure Follows (stepFast stepRef : Act (List MemoryWriteEvent) Bool) (w d : Watched) (n : Nat)
    (r : Runner) : Prop where
  fast : After (soloRound stepFast) n w r.fast
  ref : ∃ v, After (soloRound stepRef) n d v ∧ r.ref = withShared v (sharedOf r.fast)

theorem After.last {round : Act (List MemoryWriteEvent) Bool} {u v : Watched}
    (hu : After round n w u) (hv : After round (n + 1) w v) : ∃ more, round u = .ok more v := by
  cases hv with
  | succ hu' hround =>
      obtain rfl := hu.det hu'
      exact ⟨_, hround⟩

/-- A round of the runner follows the runs alone, with equal answers and no difference. -/
theorem Follows.round (hfastAlive : AliveAtPc stepFast) (hrefAlive : AliveAtPc stepRef)
    (hagree : AgreeAlone stepFast stepRef w d) (hrepeats : RepeatsAlone stepFast stepRef w d)
    {r : Runner} (h : Follows stepFast stepRef w d n r) {more : Bool} {u : Watched}
    (hstep : soloRound stepFast r.fast = .ok more u) :
    ∃ t, runRound stepFast stepRef r = .ok (more, more) t ∧ t.fast = u ∧
      Follows stepFast stepRef w d (n + 1) t ∧ ¬t.Differs := by
  obtain ⟨v, hv, href⟩ := h.ref
  have hu := h.fast.succ hstep
  obtain ⟨v', hv'⟩ := hagree.completes (n + 1) u hu
  obtain ⟨more', hstep'⟩ := After.last hv hv'
  have hpc : r.fast.core.pc = v.core.pc :=
    congrArg RegisterFile.pc (hagree.registers n _ _ h.fast hv)
  obtain rfl : more = more' := by
    have hmore := hfastAlive (clearWrites r.fast) more u hstep
    have hmore' := hrefAlive (clearWrites v) more' v' hstep'
    rw [show (clearWrites r.fast).core.pc = (clearWrites v).core.pc from hpc, ← hmore'] at hmore
    exact Bool.eq_iff_iff.mpr hmore
  have hagain := hrepeats n _ v more more u v' h.fast hv hstep hstep'
  have hround : runRound stepFast stepRef r =
      .ok (more, more) ((r.clear.setFast u).setRef (withShared v' (sharedOf u))) := by
    have hcleared : (r.clear.setFast u).ref = clearWrites (withShared v (sharedOf u)) := by
      simp only [Runner.setFast, Runner.clear, href]
      rfl
    have hfastStep : runFast stepFast r.clear = .ok more (r.clear.setFast u) := by
      have hclear : stepFast r.clear.fast = .ok more u := hstep
      rw [runFast, hclear]
    have hrefStep : runRef stepRef (r.clear.setFast u) =
        .ok more ((r.clear.setFast u).setRef (withShared v' (sharedOf u))) := by
      have hlast : stepRef (r.clear.setFast u).ref = .ok more (withShared v' (sharedOf u)) := by
        rw [hcleared]
        exact hagain
      rw [runRef, hlast]
    simp only [runRound, Action.bind_apply, Action.modify_apply, Outcome.bind_ok, hfastStep,
      hrefStep, Action.pure_apply]
  refine ⟨_, hround, rfl, ⟨hu, v', hv', rfl⟩, ?_⟩
  rintro (hfile | hwrites)
  · exact hfile (hagree.registers (n + 1) u v' hu hv')
  · exact hwrites (hagree.writes n u v' hu hv')

theorem compareStep_same {pc : Addr} {r : Runner} (h : ¬r.Differs) : compareStep pc r = none := by
  obtain ⟨hfile, hwrites⟩ := not_or.mp h
  have hregs : regItems.findSome? (compareItem pc _ _) = none :=
    regItems_eq_none.mpr (not_not.mp hfile)
  have hstores : compareMemoryWrites pc r.fast.host r.ref.host = none := by
    rw [compareMemoryWrites, List.findSome?_eq_none_iff, not_not.mp hwrites]
    intro i _
    simp [compareWrite]
  rw [compareStep, hregs, hstores]
  rfl

theorem Follows.of_after (hfastAlive : AliveAtPc stepFast) (hrefAlive : AliveAtPc stepRef)
    (hagree : AgreeAlone stepFast stepRef w d) (hrepeats : RepeatsAlone stepFast stepRef w d)
    {r t : Runner} (hstart : Follows stepFast stepRef w d 0 r)
    (h : After (runRound stepFast stepRef) n r t) :
    Follows stepFast stepRef w d n t := by
  induction h with
  | zero => exact hstart
  | @succ n s t u alive _ hround ih =>
      obtain ⟨fastAlive, refAlive⟩ := alive
      have hfollows := ih hstart
      obtain ⟨u', _, hfast, _, -⟩ := runRound_eq_ok hround
      have hstep : soloRound stepFast t.fast = .ok fastAlive u' := hfast
      obtain ⟨t', hround', -, hnext, -⟩ :=
        hfollows.round hfastAlive hrefAlive hagree hrepeats hstep
      rw [hround] at hround'
      cases hround'
      exact hnext

/-- A round that has begun ends the loop only when both tracks are finished. -/
theorem Follows.checkRound (hfastAlive : AliveAtPc stepFast) (hrefAlive : AliveAtPc stepRef)
    (hagree : AgreeAlone stepFast stepRef w d) (hrepeats : RepeatsAlone stepFast stepRef w d)
    {r t : Runner} (h : Follows stepFast stepRef w d n r) {alive : Bool × Bool}
    (hround : runRound stepFast stepRef r = .ok alive t) :
    Testing.checkRound r alive t = if alive.1 then none else some .terminated := by
  obtain ⟨fastAlive, refAlive⟩ := alive
  obtain ⟨u, _, hfast, _, -⟩ := runRound_eq_ok hround
  have hstep : soloRound stepFast r.fast = .ok fastAlive u := hfast
  obtain ⟨t', hround', -, -, hsame⟩ := h.round hfastAlive hrefAlive hagree hrepeats hstep
  rw [hround] at hround'
  cases hround'
  simp only [Testing.checkRound, compareStep_same hsame]
  cases fastAlive <;> rfl

theorem Follows.seated (hfastAlive : AliveAtPc stepFast) (hrefAlive : AliveAtPc stepRef)
    {r t : Runner} {entry : Addr}
    (hagree : AgreeAlone stepFast stepRef (r.seat entry).fast (r.seat entry).ref)
    (hrepeats : RepeatsAlone stepFast stepRef (r.seat entry).fast (r.seat entry).ref)
    (h : After (runRound stepFast stepRef) n (r.seat entry) t) :
    Follows stepFast stepRef (r.seat entry).fast (r.seat entry).ref n t := by
  refine of_after hfastAlive hrefAlive hagree hrepeats ⟨.zero _, _, .zero _, ?_⟩ h
  rw [← (r.seat entry).shared]
  rfl

end Rounds

/-! ## What a step reads and changes -/

namespace Shared

def setByte (s : Shared) (a : Addr) (byte : BitVec 8) : Shared :=
  { s with memory := Function.update s.memory a byte }

def setSwitch (s : Shared) (active : Bool) : Shared := { s with mteActive := active }

end Shared

section Bytes

variable {step : Act (List MemoryWriteEvent) Bool} {v v' : Watched} {more : Bool}

/-- The step leaves another byte at `a`. -/
def Changes (step : Act (List MemoryWriteEvent) Bool) (v : Watched) (a : Addr) : Prop :=
  ∃ more v', step v = .ok more v' ∧ v'.core.memory a ≠ v.core.memory a

def ChangesSwitch (step : Act (List MemoryWriteEvent) Bool) (v : Watched) : Prop :=
  ∃ more v', step v = .ok more v' ∧ v'.core.mteActive ≠ v.core.mteActive

/-- Over `s` the step does the same whatever the byte at `a` is, and overwrites or keeps it. -/
def Ignores (step : Act (List MemoryWriteEvent) Bool) (v : Watched) (s : Shared) (a : Addr) :
    Prop :=
  ∀ byte more x, step (withShared v s) = .ok more x →
    step (withShared v (s.setByte a byte)) = .ok more x ∨
      x.core.memory a = s.memory a ∧
        step (withShared v (s.setByte a byte)) =
          .ok more (withShared x ((sharedOf x).setByte a byte))

def IgnoresSwitch (step : Act (List MemoryWriteEvent) Bool) (v : Watched) (s : Shared) : Prop :=
  ∀ active more x, step (withShared v s) = .ok more x →
    step (withShared v (s.setSwitch active)) = .ok more x ∨
      x.core.mteActive = s.mteActive ∧
        step (withShared v (s.setSwitch active)) =
          .ok more (withShared x ((sharedOf x).setSwitch active))

/-- Only what the step changes is other than before it. -/
structure Partway (step : Act (List MemoryWriteEvent) Bool) (v : Watched) (s : Shared) : Prop where
  memory : ∀ a, s.memory a ≠ v.core.memory a → Changes step v a
  mteActive : s.mteActive ≠ v.core.mteActive → ChangesSwitch step v

/-- The step depends on the byte at `a`, for some contents of what it changes. -/
def Reads (step : Act (List MemoryWriteEvent) Bool) (v : Watched) (a : Addr) : Prop :=
  ∃ s, Partway step v s ∧ ¬Ignores step v s a

def ReadsSwitch (step : Act (List MemoryWriteEvent) Bool) (v : Watched) : Prop :=
  ∃ s, Partway step v s ∧ ¬IgnoresSwitch step v s

/-- The step reads nothing of what it changes. -/
structure Unread (step : Act (List MemoryWriteEvent) Bool) (v : Watched) : Prop where
  memory : ∀ a, Changes step v a → ¬Reads step v a
  mteActive : ChangesSwitch step v → ¬ReadsSwitch step v

theorem not_changes (hstep : step v = .ok more v') {a : Addr}
    (hsame : v'.core.memory a = v.core.memory a) : ¬Changes step v a := by
  rintro ⟨_, x, hx, hne⟩
  rw [hstep] at hx
  cases hx
  exact hne hsame

theorem not_changesSwitch (hstep : step v = .ok more v')
    (hsame : v'.core.mteActive = v.core.mteActive) : ¬ChangesSwitch step v := by
  rintro ⟨_, x, hx, hne⟩
  rw [hstep] at hx
  cases hx
  exact hne hsame

theorem unread_of_same (hstep : step v = .ok more v') (hsame : sharedOf v' = sharedOf v) :
    Unread step v where
  memory a h := absurd h (not_changes hstep (congrFun (congrArg Shared.memory hsame) a))
  mteActive h := absurd h (not_changesSwitch hstep (congrArg Shared.mteActive hsame))

end Bytes

/-! ## The tracks of the library -/

/-- The leaves of the table store through the store primitive, which reports each store. -/
def ReportsStores (E : Env) : Prop :=
  ∀ hash run, E.leaf hash = some run → ∀ word c, ∃ stores, StoresAt stores c.memory (run word c)

section Library

variable {E : Env} {nested : ExecCall → Act (List MemoryWriteEvent) Bool}

theorem notifyStore_runner (event : MemoryWriteEvent) (w : Watched) :
    notifyStore E (runnerHost none) nested event w =
      .ok () { w.log (.memoryWrite event) with host := w.host ++ [event] } := rfl

theorem runLeaf_effect {stores : List Addr} {mem : Memory} {p : LeafProg}
    (hp : StoresAt stores mem p) {w x : Watched} (hw : w.core.memory = mem)
    (h : runLeaf E (runnerHost none) nested p w = .ok () x) :
    ∃ es, x.host = w.host ++ es ∧ x.core.memory = effect mem es := by
  induction hp generalizing w with
  | done c =>
      cases h
      exact ⟨[], by simp, rfl⟩
  | abort message c => cases h
  | @store as mem e c next hsized hfits hmem hnext ih =>
      simp only [runLeaf, notifyStore_runner, Outcome.bind_ok] at h
      obtain ⟨es, hhost, hmemory⟩ := ih c rfl rfl h
      refine ⟨e :: es, ?_, ?_⟩
      · rw [hhost]
        exact List.append_assoc _ _ _
      · rw [hmemory, hmem]
        rfl

theorem runVisitor_effect (hE : ReportsStores E) {v : Visitor} {word : Word} {w x : Watched}
    (hleaf : ∀ run, v = .leaf run → ∃ hash, E.leaf hash = some run)
    (h : runVisitor E (runnerHost none) nested v word w = .ok () x) :
    ∃ es, x.host = w.host ++ es ∧ x.core.memory = effect w.core.memory es := by
  cases hbranch : v.branchStep E word w.core with
  | some step =>
      rw [runVisitor_branch E _ nested hbranch] at h
      have hmem := branchStep_memory hbranch
      cases step with
      | fallThrough c =>
          cases h
          exact ⟨[], by simp, hmem⟩
      | commit target c =>
          cases h
          exact ⟨[], by simp, hmem⟩
      | abort reason c => cases h
  | none =>
      cases v with
      | unimplemented =>
          obtain ⟨-, rfl⟩ := Action.require_eq_ok.mp h
          exact ⟨[], by simp, rfl⟩
      | unallocated => cases h
      | leaf run =>
          obtain ⟨hash, hrun⟩ := hleaf run rfl
          obtain ⟨stores, hstores⟩ := hE hash run hrun word w.core
          exact runLeaf_effect hstores rfl h
      | _ => simp [Visitor.branchStep] at hbranch

theorem leave_memory (s entered : Sim) : (s.leave entered).core.memory = s.core.memory := by
  simp only [Sim.leave]
  split_ifs <;> rfl

theorem soloRound_effect (hE : ReportsStores E) {track : Track} {w v : Watched}
    (hdecodes : w.Decodes E) {more : Bool}
    (h : soloRound (runCall E (runnerHost none) 1 (.stepOnce track)) w = .ok more v) :
    v.core.memory = effect w.core.memory v.host := by
  obtain ⟨x, hbody, rfl⟩ := execCall_eq_ok h
  have hstep : stepOnce E (runnerHost none) (runCall E (runnerHost none) 0) track
      ((clearWrites w).entered (.stepOnce track)) = .ok more x := hbody
  have hx : x.core.memory = effect w.core.memory x.host := by
    cases more with
    | false =>
        rw [stepOnce_eq_false hstep]
        rfl
    | true =>
        obtain ⟨-, found, u, y, hfound, hvisitor, rfl⟩ := stepOnce_eq_ok hstep
        have hleaf (run : Leaf) (hrun : found.2 = .leaf run) : ∃ hash, E.leaf hash = some run := by
          obtain ⟨hash, visitor⟩ := found
          obtain rfl : visitor = .leaf run := hrun
          exact dispatch_leaf (w := (clearWrites w).entered (.stepOnce track)) hdecodes hfound
        obtain ⟨es, hhost, hmem⟩ := runVisitor_effect hE hleaf hvisitor
        obtain ⟨curRange, lastInstruction, rfl⟩ := dispatch_begun hfound
        have hes : y.host = es := hhost
        have hfinish : (finishStep y.core).memory = y.core.memory := finishStep_memory y.core
        rw [World.core_setCore, hfinish, hmem, World.host_setCore, hes]
        rfl
  exact (leave_memory x.sim _).trans hx

theorem anything_invariant (E : Env) : CoreInvariant E fun _ => True where
  write _ _ _ _ _ := trivial
  memory _ _ _ := trivial
  position _ _ _ _ _ _ _ _ := trivial
  branch _ _ _ _ := trivial
  leaf _ run _ word c _ := by
    induction run word c with
    | done c => exact .done trivial
    | abort message c => exact .abort message c
    | store event c next ih => exact .store trivial fun d _ => ih d

theorem soloRound_decodes {track : Track} {w v : Watched} (hdecodes : w.Decodes E) {more : Bool}
    (h : soloRound (runCall E (runnerHost none) 1 (.stepOnce track)) w = .ok more v) :
    v.Decodes E := by
  have hw : (clearWrites w).Holds E fun _ => True := ⟨trivial, hdecodes⟩
  exact (((anything_invariant E).runCall (runnerHost none) 1 (.stepOnce track) hw).of_eq_ok
    h).decodes

theorem AgreeAlone.memory (hE : ReportsStores E) {w d : Watched}
    (hagree : AgreeAlone (fastStep E) (refStep E) w d) (hmem : w.core.memory = d.core.memory)
    (hw : w.Decodes E) (hd : d.Decodes E) {n : Nat} {u v : Watched}
    (hu : After (soloRound (fastStep E)) n w u) (hv : After (soloRound (refStep E)) n d v) :
    u.core.memory = v.core.memory ∧ u.Decodes E ∧ v.Decodes E := by
  induction n generalizing u v with
  | zero =>
      cases hu
      cases hv
      exact ⟨hmem, hw, hd⟩
  | succ n ih =>
      have hwrites := hagree.writes n u v hu hv
      cases hu with
      | succ hu hfast =>
          cases hv with
          | succ hv href =>
              obtain ⟨hbefore, hu', hv'⟩ := ih hu hv
              refine ⟨?_, soloRound_decodes hu' hfast, soloRound_decodes hv' href⟩
              rw [soloRound_effect hE hu' hfast, soloRound_effect hE hv' href, hbefore, hwrites]

/-! ## Instructions that do not see their stores -/

def withMemory (w : Watched) (memory : Memory) : Watched :=
  withShared w ⟨memory, w.core.mteActive⟩

end Library

/-! ## Runs of a known length -/

section Known

variable {stepFast stepRef : Act (List MemoryWriteEvent) Bool} {w d : Watched}

theorem AgreeAlone.cons {a b : Bool} {u v : Watched} (hfast : soloRound stepFast w = .ok a u)
    (href : soloRound stepRef d = .ok b v) (hfile : w.sim.readAll = d.sim.readAll)
    (hwrites : u.host = v.host) (hrest : AgreeAlone stepFast stepRef u v) :
    AgreeAlone stepFast stepRef w d where
  registers n x y hx hy := by
    cases n with
    | zero =>
        cases hx
        cases hy
        exact hfile
    | succ n =>
        obtain ⟨_, x', hstep, hx⟩ := hx.uncons
        obtain ⟨_, y', hstep', hy⟩ := hy.uncons
        rw [hfast] at hstep
        rw [href] at hstep'
        cases hstep
        cases hstep'
        exact hrest.registers n x y hx hy
  writes n x y hx hy := by
    obtain ⟨_, x', hstep, hx⟩ := hx.uncons
    obtain ⟨_, y', hstep', hy⟩ := hy.uncons
    rw [hfast] at hstep
    rw [href] at hstep'
    cases hstep
    cases hstep'
    cases n with
    | zero =>
        cases hx
        cases hy
        exact hwrites
    | succ n => exact hrest.writes n x y hx hy
  completes n x hx := by
    cases n with
    | zero => exact ⟨d, .zero d⟩
    | succ n =>
        obtain ⟨_, x', hstep, hx⟩ := hx.uncons
        rw [hfast] at hstep
        cases hstep
        obtain ⟨y, hy⟩ := hrest.completes n x hx
        exact ⟨y, hy.cons href⟩

/-- A finished simulator only has its list of stores cleared. -/
def Finished (step : Act (List MemoryWriteEvent) Bool) (w : Watched) : Prop :=
  soloRound step w = .ok false (clearWrites w)

theorem Finished.after {step : Act (List MemoryWriteEvent) Bool} (h : Finished step w) {n : Nat}
    {u : Watched} (hu : After (soloRound step) n w u) : clearWrites u = clearWrites w := by
  have hkeeps (x : Watched) (more : Bool) (y : Watched) (hx : clearWrites x = clearWrites w)
      (hround : soloRound step x = .ok more y) : clearWrites y = clearWrites w := by
    have hfinished : soloRound step x = .ok false (clearWrites w) := by
      rw [soloRound, hx]
      exact h
    rw [hfinished] at hround
    cases hround
    rfl
  exact hu.invariant hkeeps rfl

theorem Finished.last {step : Act (List MemoryWriteEvent) Bool} (h : Finished step w) {n : Nat}
    {u v : Watched} {more : Bool} (hu : After (soloRound step) n w u)
    (hround : soloRound step u = .ok more v) : more = false ∧ v = clearWrites w := by
  have hfinished : soloRound step u = .ok false (clearWrites w) := by
    rw [soloRound, h.after hu]
    exact h
  rw [hfinished] at hround
  cases hround
  exact ⟨rfl, rfl⟩

theorem AgreeAlone.finished (hfile : w.sim.readAll = d.sim.readAll) (hw : Finished stepFast w)
    (hd : Finished stepRef d) :
    AgreeAlone stepFast stepRef w d where
  registers n u v hu hv := by
    have hfast := congrArg (fun x : Watched => x.sim.readAll) (hw.after hu)
    have href := congrArg (fun x : Watched => x.sim.readAll) (hd.after hv)
    exact (hfast.trans hfile).trans href.symm
  writes n u v hu hv := by
    cases hu with
    | succ hu hfast =>
        cases hv with
        | succ hv href =>
            rw [(hw.last hu hfast).2, (hd.last hv href).2]
            rfl
  completes n u _ := by
    induction n generalizing u with
    | zero => exact ⟨d, .zero d⟩
    | succ n ih =>
        rename_i hu
        cases hu with
        | succ hu _ =>
            obtain ⟨v, hv⟩ := ih _ hu
            refine ⟨clearWrites d, hv.succ (a := false) ?_⟩
            rw [soloRound, hd.after hv]
            exact hd

theorem Finished.shared {step : Act (List MemoryWriteEvent) Bool} (h : Finished step w) {n : Nat}
    {u : Watched} (hu : After (soloRound step) n w u) : sharedOf u = sharedOf w := by
  have hcleared := congrArg sharedOf (h.after hu)
  exact hcleared

theorem Finished.unread {step : Act (List MemoryWriteEvent) Bool} (h : Finished step w) {n : Nat}
    {u : Watched} (hu : After (soloRound step) n w u) : Unread (soloRound step) u := by
  have hround : soloRound step u = .ok false (clearWrites w) := by
    rw [soloRound, h.after hu]
    exact h
  exact unread_of_same hround (h.shared hu).symm

end Known

/-- What is compared after a step. -/
def observed (w : Watched) :
    (List (BitVec 64) × List VRegisterValue × List (BitVec 32)) × List MemoryWriteEvent :=
  (fileData w.sim.readAll, w.host)

/-- A bit is set in memory without loading it, X1 is stored, and the function returns. -/
def setWords : List Word := [0xf821307f, 0xf9000081, 0xd65f03c0]

end GabyVm.Testing
