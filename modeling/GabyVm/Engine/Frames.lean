import GabyVm.Aarch64.GuardedStack
import GabyVm.Engine.Initial
import GabyVm.Engine.Visits

/-!
# Calls, returns and the guarded control stack

A well-nested guest program has a frame for every call whose callee is
running: a call that enters its callee pushes one, a return goes back to the
most recent one and pops it.  A call that the branch hook answers enters no
callee.  `follow` runs a program and keeps its frames, as long as it is well
nested.
-/

namespace GabyVm.Engine

open GabyVm.Aarch64
open GabyVm.Cache
open GabyVm.Foundation

variable {τ : Type}

/-- What a step does to the frames. -/
inductive Move where
  | enter
  | answered
  | leave
  | stay
  deriving DecidableEq, Repr

def Move.frames (move : Move) (next : Addr) (frames : List Addr) : List Addr :=
  match move with
  | .enter => next :: frames
  | .answered => frames
  | .leave => frames.tail
  | .stay => frames

section Follow

variable (E : Env) (H : Host τ) (nested : ExecCall → Act τ Bool)

/-- The hook returns the link register instead of the target of the call. -/
def answersCall (target : Addr) (asked : World τ) : Bool :=
  match H.branchHook with
  | none => false
  | some hook =>
      match (hook target).run E nested (asked.log (.branch (branchEvent asked target))) with
      | .ok next _ => next == asked.core.readLr && next != target
      | .abort _ _ => false
      | .timeout => false

/--
The move of a step from `w` to `v`; none when the program is not well nested
there: its return addresses are words of code, it returns to its caller, and
apart from calls and returns it leaves the guarded control stack alone.
-/
def moveAt (track : Track) (w v : World τ) (frames : List Addr) : Option Move :=
  match dispatch E track w with
  | .ok found u =>
      let c := visitCore w.core found.1
      if visitorLinks found.2 w.core.instr then
        match found.2.branchStep E w.core.instr c with
        | some (.commit target c') =>
            if isWordAligned w.core.getNextInstruction && w.core.getNextInstruction != 0 then
              some (if answersCall E H nested target (u.setCore c') then .answered else .enter)
            else none
        | _ => none
      else if visitorReturns found.2 w.core.instr then
        if registerTarget c w.core.instr = frames.headD 0 then some .leave else none
      else if v.core.gcs = w.core.gcs then some .stay
      else none
  | .abort _ _ => none
  | .timeout => none

/-- Where a run has got to, with its frames and its moves. -/
structure Trail (τ : Type) where
  world : World τ
  frames : List Addr
  moves : List Move

def follow : List Track → World τ → List Addr → Option (Trail τ)
  | [], w, frames => some ⟨w, frames, []⟩
  | track :: tracks, w, frames =>
      match stepOnce E H nested track w with
      | .ok true v =>
          (moveAt E H nested track w v frames).bind fun move =>
            (follow tracks v (move.frames w.core.getNextInstruction frames)).map fun trail =>
              { trail with moves := move :: trail.moves }
      | _ => none

end Follow

variable {E : Env} {H : Host τ} {nested : ExecCall → Act τ Bool}

theorem follow_cons {track : Track} {tracks : List Track} {w : World τ} {frames : List Addr}
    {trail : Trail τ} :
    follow E H nested (track :: tracks) w frames = some trail ↔
      ∃ v move rest, stepOnce E H nested track w = .ok true v ∧
        moveAt E H nested track w v frames = some move ∧
        follow E H nested tracks v (move.frames w.core.getNextInstruction frames) =
          some rest ∧
        trail = { rest with moves := move :: rest.moves } := by
  simp only [follow]
  constructor
  · intro h
    split at h
    · rename_i v hstep
      obtain ⟨move, hmove, hrest⟩ := Option.bind_eq_some_iff.mp h
      obtain ⟨rest, hfollow, rfl⟩ := Option.map_eq_some_iff.mp hrest
      exact ⟨v, move, rest, hstep, hmove, hfollow, rfl⟩
    · cases h
  · rintro ⟨v, move, rest, hstep, hmove, hfollow, rfl⟩
    simp [hstep, hmove, hfollow]

/-- A run that is well nested is so as far as any of its states. -/
theorem follow_prefix {pre tracks : List Track} (hpre : pre <+: tracks) {w : World τ}
    {frames : List Addr} {trail : Trail τ}
    (h : follow E H nested tracks w frames = some trail) :
    ∃ t, follow E H nested pre w frames = some t ∧ t.moves <+: trail.moves := by
  induction pre generalizing tracks w frames trail with
  | nil => exact ⟨⟨w, frames, []⟩, rfl, List.nil_prefix⟩
  | cons track pre ih =>
      obtain ⟨rest, rfl⟩ := hpre
      obtain ⟨v, move, trail', hstep, hmove, hfollow, rfl⟩ := follow_cons.mp h
      obtain ⟨t, ht, hmoves⟩ := ih (List.prefix_append pre rest) hfollow
      exact ⟨_, follow_cons.mpr ⟨v, move, t, hstep, hmove, ht, rfl⟩,
        List.cons_prefix_cons.mpr ⟨rfl, hmoves⟩⟩

theorem follow_reaches {tracks : List Track} {w : World τ} {frames : List Addr}
    {trail : Trail τ} (h : follow E H nested tracks w frames = some trail) :
    Reaches (tracks.map (stepOnce E H nested)) w trail.world := by
  induction tracks generalizing w frames trail with
  | nil =>
      cases h
      exact .refl w
  | cons track tracks ih =>
      obtain ⟨v, move, rest, hstep, -, hfollow, rfl⟩ := follow_cons.mp h
      have hrest := ih hfollow
      exact .step hstep hrest

/-! ## What a move does to the guarded control stack -/

variable (E H nested) in
/-- The callbacks of a taken branch leave the guarded control stack alone. -/
def CommitKeepsGcs (track : Track) (w : World τ) : Prop :=
  ∀ found u target c x, dispatch E track w = .ok found u →
    found.2.branchStep E w.core.instr (visitCore w.core found.1) = some (.commit target c) →
    gabyHookedWritePc E H nested target (u.setCore c) = .ok () x → x.core.gcs = c.gcs

@[simp] theorem finishStep_gcs (c : Core) : (finishStep c).gcs = c.gcs := by
  simp only [finishStep, Core.updateBType, Core.incrementPc]
  split_ifs <;> rfl

@[simp] theorem finishStep_cpuFeatures (c : Core) :
    (finishStep c).cpuFeatures = c.cpuFeatures := by
  simp only [finishStep, Core.updateBType, Core.incrementPc]
  split_ifs <;> rfl

/-- The return address is pushed by every call, also by one that the hook answers. -/
theorem call_gcs {track : Track} {w u x : World τ} {found : Found} {target : Addr} {c : Core}
    (hkeeps : CommitKeepsGcs E H nested track w) (hfound : dispatch E track w = .ok found u)
    (hlinks : visitorLinks found.2 w.core.instr = true)
    (hbranch : found.2.branchStep E w.core.instr (visitCore w.core found.1) =
      some (.commit target c))
    (hvisitor : runVisitor E H nested found.2 w.core.instr
      (u.setCore (visitCore w.core found.1)) = .ok () x) :
    x.core.gcs = w.core.getNextInstruction :: w.core.gcs := by
  rw [runVisitor_commit (w := u.setCore (visitCore w.core found.1)) hbranch] at hvisitor
  rw [hkeeps found u target c x hfound hbranch hvisitor]
  cases branchStep_gcs hbranch with
  | push _ hgcs _ => exact hgcs
  | pop hnot _ _ _ _ => simp [hlinks] at hnot
  | keep hnot _ _ => simp [hlinks] at hnot

theorem return_gcs {track : Track} {w u x : World τ} {found : Found} {frames base : List Addr}
    (hkeeps : CommitKeepsGcs E H nested track w) (hfound : dispatch E track w = .ok found u)
    (hreturns : visitorReturns found.2 w.core.instr = true)
    (htarget : registerTarget (visitCore w.core found.1) w.core.instr = frames.headD 0)
    (hgcs : w.core.gcs = frames ++ base) (hbase : base.headD 0 = 0) (hproper : ProperFrames frames)
    (hvisitor : runVisitor E H nested found.2 w.core.instr
      (u.setCore (visitCore w.core found.1)) = .ok () x) :
    x.core.gcs = frames.tail ++ base := by
  obtain ⟨hash, visitor⟩ := found
  cases visitor with
  | unconditionalBranchToRegister =>
      cases hbranch : visitUnconditionalBranchToRegister E w.core.instr
          (visitCore w.core hash) with
      | fallThrough c => exact absurd hbranch visitUnconditionalBranchToRegister_taken
      | abort reason c =>
          have hstep : Visitor.unconditionalBranchToRegister.branchStep E w.core.instr
              (visitCore w.core hash) = some (.abort reason c) := congrArg some hbranch
          rw [runVisitor_branch E H nested (w := u.setCore (visitCore w.core hash))
            hstep] at hvisitor
          cases hvisitor
      | commit target c =>
          have hstep : Visitor.unconditionalBranchToRegister.branchStep E w.core.instr
              (visitCore w.core hash) = some (.commit target c) := congrArg some hbranch
          rw [runVisitor_commit (w := u.setCore (visitCore w.core hash)) hstep] at hvisitor
          rw [hkeeps _ u target c x hfound hstep hvisitor]
          cases branchStep_gcs hstep with
          | push hlinks _ _ => simp [visitorLinks, isLinkOp_of_ret hreturns] at hlinks
          | pop _ _ htarget_eq hchecked hpopped =>
              obtain ⟨d, hd, hframes⟩ := checkGcs_frames
                (c := visitCore w.core hash) (by exact hgcs) hbase hproper
              rw [htarget_eq, htarget, hd] at hchecked
              cases hchecked
              rw [hpopped, hframes]
          | keep _ hnot _ => simp [hreturns] at hnot
  | _ => cases hreturns

theorem moveAt_gcs {track : Track} {w v : World τ} {frames base : List Addr} {move : Move}
    (hkeeps : CommitKeepsGcs E H nested track w)
    (hstep : stepOnce E H nested track w = .ok true v)
    (hmove : moveAt E H nested track w v frames = some move)
    (hgcs : w.core.gcs = frames ++ base) (hbase : base.headD 0 = 0)
    (hproper : ProperFrames frames) :
    (move = .answered → v.core.gcs = w.core.getNextInstruction :: w.core.gcs) ∧
    (move ≠ .answered →
      v.core.gcs = move.frames w.core.getNextInstruction frames ++ base ∧
      ProperFrames (move.frames w.core.getNextInstruction frames)) := by
  obtain ⟨-, found, u, x, hfound, hvisitor, rfl⟩ := stepOnce_eq_ok hstep
  simp only [moveAt, hfound] at hmove
  rw [World.core_setCore, finishStep_gcs]
  rw [World.core_setCore, finishStep_gcs] at hmove
  cases hlinks : visitorLinks found.2 w.core.instr with
  | true =>
      simp only [hlinks, if_true] at hmove
      split at hmove
      · rename_i target c hbranch
        have hcall := call_gcs hkeeps hfound hlinks hbranch hvisitor
        split_ifs at hmove with hnext
        · cases hmove
          exact ⟨fun _ => hcall, fun h => absurd rfl h⟩
        · cases hmove
          rw [Bool.and_eq_true, bne_iff_ne] at hnext
          refine ⟨nofun, fun _ => ⟨by rw [hcall, hgcs]; rfl, ?_⟩⟩
          intro a ha
          rcases List.mem_cons.mp ha with rfl | ha
          · exact hnext
          · exact hproper a ha
      · cases hmove
  | false =>
      simp only [hlinks, Bool.false_eq_true, if_false] at hmove
      split_ifs at hmove with hreturns htarget hsame
      · cases hmove
        have hpopped := return_gcs hkeeps hfound hreturns htarget hgcs hbase hproper hvisitor
        exact ⟨nofun, fun _ => ⟨hpopped, fun a ha =>
          hproper a (List.mem_of_mem_tail ha)⟩⟩
      · cases hmove
        exact ⟨nofun, fun _ => ⟨hsame.trans hgcs, hproper⟩⟩

/--
Along a well-nested run in which no call is answered, the guarded control stack
holds the frames, over whatever was on it before.
-/
theorem follow_gcs {tracks : List Track} {w : World τ} {frames base : List Addr}
    {trail : Trail τ} (h : follow E H nested tracks w frames = some trail)
    (hkeeps : ∀ pre track, pre ++ [track] <+: tracks →
      ∀ t, follow E H nested pre w frames = some t → CommitKeepsGcs E H nested track t.world)
    (hanswered : Move.answered ∉ trail.moves) (hgcs : w.core.gcs = frames ++ base)
    (hbase : base.headD 0 = 0) (hproper : ProperFrames frames) :
    trail.world.core.gcs = trail.frames ++ base ∧ ProperFrames trail.frames := by
  induction tracks generalizing w frames trail with
  | nil =>
      cases h
      exact ⟨hgcs, hproper⟩
  | cons track tracks ih =>
      obtain ⟨v, move, rest, hstep, hmove, hfollow, rfl⟩ := follow_cons.mp h
      simp only [List.mem_cons, not_or] at hanswered
      obtain ⟨hfirst, hrest⟩ := hanswered
      obtain ⟨hvgcs, hvproper⟩ := (moveAt_gcs
        (hkeeps [] track (List.cons_prefix_cons.mpr ⟨rfl, List.nil_prefix⟩)
          ⟨w, frames, []⟩ rfl) hstep hmove hgcs hbase hproper).2 (Ne.symm hfirst)
      have hkeepsRest : ∀ pre next, pre ++ [next] <+: tracks →
          ∀ t, follow E H nested pre v (move.frames w.core.getNextInstruction frames) = some t →
            CommitKeepsGcs E H nested next t.world := by
        intro pre next hpre t ht
        exact hkeeps (track :: pre) next (List.cons_prefix_cons.mpr ⟨rfl, hpre⟩)
          { t with moves := move :: t.moves }
          (follow_cons.mpr ⟨v, move, t, hstep, hmove, ht, rfl⟩)
      have hend := ih hfollow hkeepsRest hrest hvgcs hvproper
      exact hend

end GabyVm.Engine
