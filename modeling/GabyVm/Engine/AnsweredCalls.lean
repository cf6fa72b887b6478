import GabyVm.Engine.Frames

/-!
# Calls that the hook answers

A call pushes its return address before the hook is asked.  When the hook
answers the call, no return pops that entry again: the guarded control stack
then no longer holds the frames of the program, and the next return to an
enclosing frame meets the entry of the answered call.
-/

namespace GabyVm.Engine

open GabyVm.Aarch64
open GabyVm.Cache
open GabyVm.Foundation

variable {τ : Type} {E : Env} {H : Host τ} {nested : ExecCall → Act τ Bool}

/-! ## Hooks without execution calls -/

theorem keepsGcs (E : Env) (gcs : List Addr) :
    HostInvariant E (fun _ => True) (fun w : World τ => w.core.gcs = gcs)
      (fun reason _ => reason ≠ .gcsFailed) where
  setHost w t h := h
  write r w _ h := by
    refine writeRegister_frame r (fun _ _ _ => h) (fun _ => h) ?_
    rintro _ hwrite rfl
    cases hwrite
  writeByte w a b h := h
  register w start sizeBytes alloc h := by
    unfold World.register
    cases w.cache <;> exact h
  setTraceParameters w parameters h := h

theorem gabyHookedWritePc_gcs (hH : H.NoExec) (target : Addr) (w : World τ) :
    (gabyHookedWritePc E H nested target w).Ensures (fun _ v => v.core.gcs = w.core.gcs)
      (fun reason _ => reason ≠ .gcsFailed) := by
  unfold gabyHookedWritePc
  cases hhook : H.branchHook with
  | none => rfl
  | some hook =>
      have hcalls : ∀ call, False → ∀ w' : World τ, w'.core.gcs = w.core.gcs →
          (nested call w').Ensures (fun _ v => v.core.gcs = w.core.gcs)
            (fun reason _ => reason ≠ .gcsFailed) := by
        intro _ hfalse
        exact hfalse.elim
      have hlogged : (w.log (.branch (branchEvent w target))).core.gcs = w.core.gcs := rfl
      apply ((keepsGcs E w.core.gcs).run (hH.branchHook hook hhook target) hcalls hlogged).bind
      intro next v hv
      cases isWordAligned next with
      | true => exact hv
      | false => simp

theorem commitKeepsGcs_of_noExec (hH : H.NoExec) (track : Track) (w : World τ) :
    CommitKeepsGcs E H nested track w := by
  intro found u target c x _ _ hcommit
  exact (gabyHookedWritePc_gcs hH target (u.setCore c)).of_eq_ok hcommit

/-! ## Consistency -/

variable (E H nested) in
/-- No return from here to the most recent frame aborts for the guarded control stack. -/
def ReturnSafe (w : World τ) (frames : List Addr) : Prop :=
  ∀ track found u, dispatch E track w = .ok found u →
    visitorReturns found.2 w.core.instr = true →
    registerTarget (visitCore w.core found.1) w.core.instr = frames.headD 0 →
    ∀ v, stepOnce E H nested track w ≠ .abort .gcsFailed v

variable (E H nested) in
/-- The guarded control stack holds the frames, and lets the program return to them. -/
structure Consistent (w : World τ) (frames : List Addr) : Prop where
  gcs : w.core.gcs = frames
  returnSafe : ReturnSafe E H nested w frames

theorem returnSafe_of_gcs (hH : H.NoExec) {w : World τ} {frames : List Addr}
    (hgcs : w.core.gcs = frames) (hproper : ProperFrames frames) :
    ReturnSafe E H nested w frames := by
  rintro track ⟨hash, visitor⟩ u hfound hreturns htarget v hstep
  by_cases hpc : w.core.pc = 0
  · simp [stepOnce, Core.isSimulationFinished, hpc] at hstep
  rw [stepOnce_visit hpc hfound] at hstep
  rcases Outcome.bind_eq_abort.mp hstep with hvisitor | ⟨_, x, -, hend⟩
  · cases visitor with
    | unconditionalBranchToRegister =>
        have hstep' (step : BranchStep)
            (h : visitUnconditionalBranchToRegister E w.core.instr (visitCore w.core hash) = step) :
            Visitor.unconditionalBranchToRegister.branchStep E w.core.instr
              (visitCore w.core hash) = some step := congrArg some h
        cases hbranch : visitUnconditionalBranchToRegister E w.core.instr
            (visitCore w.core hash) with
        | fallThrough c => exact absurd hbranch visitUnconditionalBranchToRegister_taken
        | abort reason c =>
            rw [runVisitor_branch E H nested (w := u.setCore (visitCore w.core hash))
              (hstep' _ hbranch)] at hvisitor
            cases hvisitor
            have hstack : (visitCore w.core hash).gcs = frames ++ [] := by
              rw [List.append_nil]
              exact hgcs
            obtain ⟨d, hd, -⟩ := checkGcs_frames hstack rfl hproper
            obtain ⟨-, hfailed⟩ := visitUnconditionalBranchToRegister_failed hbranch
            rw [htarget, hd] at hfailed
            cases hfailed
        | commit target c =>
            rw [runVisitor_commit (w := u.setCore (visitCore w.core hash))
              (hstep' _ hbranch)] at hvisitor
            exact (gabyHookedWritePc_gcs hH target _).of_eq_abort hvisitor rfl
    | _ => cases hreturns
  · obtain ⟨condition, hcheck⟩ := (conclude_aborts track _ x).of_eq_abort hend
    cases hcheck

/-! ## Runs -/

/-- An answered call leaves its return address behind. -/
theorem answered_inconsistent (hH : H.NoExec) {tracks : List Track} {w : World τ}
    {frames : List Addr} {trail : Trail τ} (hproper : ProperFrames frames)
    (h : follow E H nested tracks w frames = some trail)
    (hanswered : Move.answered ∈ trail.moves)
    (hconsistent : ∀ pre, pre <+: tracks → ∀ t, follow E H nested pre w frames = some t →
      Consistent E H nested t.world t.frames) :
    False := by
  induction tracks generalizing w frames trail with
  | nil =>
      cases h
      cases hanswered
  | cons track tracks ih =>
      obtain ⟨v, move, rest, hstep, hmove, hfollow, rfl⟩ := follow_cons.mp h
      have hcons (pre : List Track) (hpre : pre <+: tracks) (t : Trail τ)
          (ht : follow E H nested pre v (move.frames w.core.getNextInstruction frames) = some t) :
          Consistent E H nested t.world t.frames :=
        hconsistent (track :: pre) (List.cons_prefix_cons.mpr ⟨rfl, hpre⟩)
          { t with moves := move :: t.moves }
          (follow_cons.mpr ⟨v, move, t, hstep, hmove, ht, rfl⟩)
      have hgcs : w.core.gcs = frames := (hconsistent [] List.nil_prefix ⟨w, frames, []⟩ rfl).gcs
      have hvgcs : v.core.gcs = move.frames w.core.getNextInstruction frames :=
        (hcons [] List.nil_prefix ⟨v, _, []⟩ rfl).gcs
      have hstack : w.core.gcs = frames ++ [] := by rw [List.append_nil, hgcs]
      obtain ⟨hpushed, hmoved⟩ := moveAt_gcs (commitKeepsGcs_of_noExec hH track w)
        hstep hmove hstack rfl hproper
      by_cases hfirst : move = .answered
      · rw [hpushed hfirst, hgcs, hfirst] at hvgcs
        exact List.cons_ne_self _ _ hvgcs
      · refine ih (hmoved hfirst).2 hfollow ?_ hcons
        rcases List.mem_cons.mp hanswered with h | h
        · exact absurd h.symm hfirst
        · exact h

/--
A well-nested run has its frames on the guarded control stack in every state,
and none of its returns aborts there, exactly when the hook answers no call.
-/
theorem gcs_consistent_iff (hH : H.NoExec) {tracks : List Track} {w : World τ}
    {frames : List Addr} {trail : Trail τ} (hgcs : w.core.gcs = frames)
    (hproper : ProperFrames frames)
    (hrun : follow E H nested tracks w frames = some trail) :
    (∀ pre, pre <+: tracks → ∀ t, follow E H nested pre w frames = some t →
      Consistent E H nested t.world t.frames) ↔
    Move.answered ∉ trail.moves := by
  constructor
  · intro hconsistent hanswered
    exact answered_inconsistent hH hproper hrun hanswered hconsistent
  · intro hanswered pre hpre t ht
    obtain ⟨t', ht', hmoves⟩ := follow_prefix hpre hrun
    rw [ht] at ht'
    cases ht'
    have hstack : w.core.gcs = frames ++ [] := by rw [List.append_nil, hgcs]
    obtain ⟨hend, hendProper⟩ := follow_gcs ht
      (fun _ _ _ _ _ => commitKeepsGcs_of_noExec hH _ _)
      (fun hmem => hanswered (hmoves.subset hmem)) hstack rfl hproper
    rw [List.append_nil] at hend
    exact ⟨hend, returnSafe_of_gcs hH hend hendProper⟩

/-! ## A call answered two frames deep -/

/-- A caller, and a callee that calls outside the program; both save the link register. -/
def twoFrames : List Word :=
  [0xaa1e03f4, 0x94000003, 0xaa1403fe, 0xd65f03c0, 0xaa1e03f3, 0x940003fb, 0xaa1303fe, 0xd65f03c0]

/-- A hook that answers the call to 0x2000 by returning the link register. -/
def answeringHost : Host Unit where
  branchHook := some fun target => .readAll fun file =>
    .ret (if target = 0x2000 then file.lr else target)
  memoryWriteObserver := none

theorem answeringHost_noExec : answeringHost.NoExec where
  branchHook hook h target := by
    cases h
    exact .readAll fun _ => .ret _
  observer obs h := by cases h

def twoFramesStart : World Unit :=
  (World.load (smallEnv true) 0x1000 twoFrames ()).seated .cache 0x1000

def followTwoFrames (tracks : List Track) : Option (Trail Unit) :=
  follow (smallEnv true) answeringHost (fun _ => Action.timeout) tracks twoFramesStart []

theorem gcs_consistent_iff_twoFrames :
    ∃ trail, followTwoFrames (List.replicate 5 .debug) = some trail ∧
      ((∀ pre, pre <+: List.replicate 5 .debug → ∀ t, followTwoFrames pre = some t →
        Consistent (smallEnv true) answeringHost (fun _ => Action.timeout) t.world t.frames) ↔
      Move.answered ∉ trail.moves) := by
  have hfollows : (followTwoFrames (List.replicate 5 .debug)).isSome = true := by
    decide +kernel
  obtain ⟨trail, htrail⟩ := Option.isSome_iff_exists.mp hfollows
  refine ⟨trail, htrail, gcs_consistent_iff answeringHost_noExec rfl ?_ htrail⟩
  intro a ha
  cases ha

/-- The return of the callee aborts, with its frame still to be left. -/
theorem answeredCall_aborts :
    (followTwoFrames (List.replicate 5 .cache)).map (fun trail =>
        (trail.frames, trail.moves, trail.world.core.pc,
          (stepOnce (smallEnv true) answeringHost (fun _ => Action.timeout) .cache
            trail.world).reason?)) =
      some ([0x1008], [.stay, .enter, .stay, .answered, .stay], 0x101c, some .gcsFailed) := by
  decide +kernel

end GabyVm.Engine
