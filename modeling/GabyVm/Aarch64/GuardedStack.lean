import GabyVm.Aarch64.BranchVisitors

/-!
# Branches and the guarded control stack

A branch that links pushes the return address before its target is committed,
a return compares its target with the most recent entry and pops it, and no
other branch touches the stack.
-/

namespace GabyVm.Aarch64

def visitorLinks (v : Visitor) (w : Word) : Bool :=
  match v with
  | .unconditionalBranch => w &&& unconditionalBranchMask == BL
  | .unconditionalBranchToRegister => isLinkOp w
  | _ => false

def visitorReturns (v : Visitor) (w : Word) : Bool :=
  match v with
  | .unconditionalBranchToRegister => isRetOp w
  | _ => false

theorem registerBranch_link (c : Core) (w : Word) :
    (registerBranch c w).link = isLinkOp w := by
  simp only [registerBranch]
  split_ifs <;> simp_all [isLinkOp]

theorem registerBranch_ret (c : Core) (w : Word) :
    (registerBranch c w).ret = isRetOp w := by
  simp only [registerBranch]
  split_ifs <;>
    grind [isRetOp, BR, BLR, RET, BRAAZ, BRABZ, BLRAAZ, BLRABZ, RETAA, RETAB, BRAA, BRAB,
      BLRAA, BLRAB]

theorem isLinkOp_of_ret {w : Word} (h : isRetOp w = true) : isLinkOp w = false := by
  grind [isRetOp, isLinkOp, RET, RETAA, RETAB, BLR, BLRAAZ, BLRABZ, BLRAA, BLRAB]

/-- What the commit of a target has done to the guarded control stack. -/
inductive GcsEffect (v : Visitor) (w : Word) (c : Core) (target : Addr) (c' : Core) : Prop where
  | push (links : visitorLinks v w = true) (gcs : c'.gcs = c.getNextInstruction :: c.gcs)
      (lr : c'.readLr = c.getNextInstruction)
  | pop (links : visitorLinks v w = false) (returns : visitorReturns v w = true)
      (target_eq : target = registerTarget c w) {d : Core} (checked : checkGcs c target = some d)
      (gcs : c'.gcs = d.gcs)
  | keep (links : visitorLinks v w = false) (returns : visitorReturns v w = false)
      (gcs : c'.gcs = c.gcs)

theorem commitImmTarget_eq_commit {E : Env} {w : Word} {c c' : Core} {target : Addr}
    (h : commitImmTarget E w c = .commit target c') :
    c' = c := by
  unfold commitImmTarget at h
  split_ifs at h
  cases h
  rfl

theorem visitUnconditionalBranchToRegister_gcs {E : Env} {w : Word} {c c' : Core}
    {target : Addr} (h : visitUnconditionalBranchToRegister E w c = .commit target c') :
    GcsEffect .unconditionalBranchToRegister w c target c' := by
  simp only [visitUnconditionalBranchToRegister, registerBranch_ret, registerBranch_link] at h
  cases hret : isRetOp w with
  | true =>
      have hlink := isLinkOp_of_ret hret
      cases hchecked : checkGcs c (registerTarget c w) with
      | none =>
          simp only [hret, hchecked, if_true] at h
          split_ifs at h
      | some d =>
          simp only [hret, hlink, hchecked, if_true, Bool.false_eq_true, if_false] at h
          split_ifs at h
          cases h
          exact .pop hlink hret rfl hchecked rfl
  | false =>
      cases hlink : isLinkOp w with
      | true =>
          simp only [hret, hlink, Bool.false_eq_true, if_false, if_true] at h
          split_ifs at h
          cases h
          exact .push hlink rfl rfl
      | false =>
          simp only [hret, hlink, Bool.false_eq_true, if_false] at h
          split_ifs at h
          cases h
          exact .keep hlink hret rfl

theorem visitUnconditionalBranchToRegister_taken {E : Env} {w : Word} {c c' : Core} :
    visitUnconditionalBranchToRegister E w c ≠ .fallThrough c' := by
  intro h
  simp only [visitUnconditionalBranchToRegister] at h
  split at h
  · cases h
  · split at h
    · cases h
    · split at h <;> cases h

theorem visitUnconditionalBranchToRegister_failed {E : Env} {w : Word} {c c' : Core}
    (h : visitUnconditionalBranchToRegister E w c = .abort .gcsFailed c') :
    isRetOp w = true ∧ checkGcs c (registerTarget c w) = none := by
  simp only [visitUnconditionalBranchToRegister, registerBranch_ret] at h
  cases hret : isRetOp w with
  | true =>
      refine ⟨rfl, ?_⟩
      cases hchecked : checkGcs c (registerTarget c w) with
      | none => rfl
      | some d =>
          simp only [hret, hchecked, if_true] at h
          split_ifs at h <;> cases h
  | false =>
      simp only [hret, Bool.false_eq_true, if_false] at h
      split_ifs at h <;> cases h

theorem branchStep_gcs {E : Env} {v : Visitor} {w : Word} {c c' : Core} {target : Addr}
    (h : v.branchStep E w c = some (.commit target c')) :
    GcsEffect v w c target c' := by
  cases v with
  | unconditionalBranch =>
      simp only [Visitor.branchStep, Option.some.injEq, visitUnconditionalBranch] at h
      split_ifs at h with hlink
      · obtain rfl := commitImmTarget_eq_commit h
        exact .push hlink rfl rfl
      · obtain rfl := commitImmTarget_eq_commit h
        exact .keep (by simpa [visitorLinks] using hlink) rfl rfl
  | conditionalBranch =>
      simp only [Visitor.branchStep, Option.some.injEq, visitConditionalBranch] at h
      split_ifs at h
      obtain rfl := commitImmTarget_eq_commit h
      exact .keep rfl rfl rfl
  | unconditionalBranchToRegister =>
      exact visitUnconditionalBranchToRegister_gcs (Option.some.inj h)
  | testBranch =>
      simp only [Visitor.branchStep, Option.some.injEq, visitTestBranch] at h
      split_ifs at h <;>
        · obtain rfl := commitImmTarget_eq_commit h
          exact .keep rfl rfl rfl
  | compareBranch =>
      simp only [Visitor.branchStep, Option.some.injEq, visitCompareBranch] at h
      split at h
      · obtain rfl := commitImmTarget_eq_commit h
        exact .keep rfl rfl rfl
      · cases h
      · split_ifs at h
  | unimplemented => cases h
  | unallocated => cases h
  | leaf run => cases h

/-- What a branch that asks for a commit has changed. -/
def CommitFrame (c c' : Core) : Prop :=
  ∃ registers gcs nextBtype, c' = { c with
    registers := registers, gcs := gcs, nextBtype := nextBtype }

theorem CommitFrame.refl (c : Core) : CommitFrame c c := ⟨_, _, _, rfl⟩

theorem CommitFrame.trans {c d e : Core} (h : CommitFrame c d) (h' : CommitFrame d e) :
    CommitFrame c e := by
  obtain ⟨_, _, _, rfl⟩ := h
  obtain ⟨_, _, _, rfl⟩ := h'
  exact ⟨_, _, _, rfl⟩

theorem checkGcs_frame {c d : Core} {addr : Addr} (h : checkGcs c addr = some d) :
    CommitFrame c d := by
  simp only [checkGcs] at h
  split_ifs at h <;>
    · cases h
      exact ⟨_, _, _, rfl⟩

theorem visitUnconditionalBranchToRegister_frame {E : Env} {w : Word} {c c' : Core}
    {target : Addr} (h : visitUnconditionalBranchToRegister E w c = .commit target c') :
    CommitFrame c c' := by
  simp only [visitUnconditionalBranchToRegister] at h
  split at h
  · cases h
  split at h
  · cases h
  split at h
  · cases h
  · rename_i d hd
    have hchecked : CommitFrame c d := by
      split at hd
      · exact checkGcs_frame hd
      · cases hd
        exact .refl _
    refine hchecked.trans ?_
    cases h
    split
    · exact ⟨_, _, _, rfl⟩
    · exact ⟨_, _, _, rfl⟩

theorem branchStep_frame {E : Env} {v : Visitor} {w : Word} {c c' : Core} {target : Addr}
    (h : v.branchStep E w c = some (.commit target c')) :
    CommitFrame c c' := by
  cases v with
  | unconditionalBranch =>
      simp only [Visitor.branchStep, Option.some.injEq, visitUnconditionalBranch] at h
      split_ifs at h
      · obtain rfl := commitImmTarget_eq_commit h
        exact ⟨_, _, _, rfl⟩
      · obtain rfl := commitImmTarget_eq_commit h
        exact .refl _
  | conditionalBranch =>
      simp only [Visitor.branchStep, Option.some.injEq, visitConditionalBranch] at h
      split_ifs at h
      obtain rfl := commitImmTarget_eq_commit h
      exact .refl _
  | unconditionalBranchToRegister =>
      exact visitUnconditionalBranchToRegister_frame (Option.some.inj h)
  | testBranch =>
      simp only [Visitor.branchStep, Option.some.injEq, visitTestBranch] at h
      split_ifs at h <;>
        · obtain rfl := commitImmTarget_eq_commit h
          exact .refl _
  | compareBranch =>
      simp only [Visitor.branchStep, Option.some.injEq, visitCompareBranch] at h
      split at h
      · obtain rfl := commitImmTarget_eq_commit h
        exact .refl _
      · cases h
      · split_ifs at h
  | unimplemented => cases h
  | unallocated => cases h
  | leaf run => cases h

theorem branchStep_fallThrough {E : Env} {v : Visitor} {w : Word} {c c' : Core}
    (h : v.branchStep E w c = some (.fallThrough c')) :
    c' = c := by
  have hcommit (c'' : Core) : commitImmTarget E w c'' ≠ .fallThrough c' := by
    unfold commitImmTarget
    split_ifs <;> simp
  cases v with
  | unconditionalBranch =>
      simp only [Visitor.branchStep, Option.some.injEq, visitUnconditionalBranch] at h
      split_ifs at h
      · exact absurd h (hcommit _)
      · exact absurd h (hcommit _)
      · cases h
        rfl
  | conditionalBranch =>
      simp only [Visitor.branchStep, Option.some.injEq, visitConditionalBranch] at h
      split_ifs at h
      · exact absurd h (hcommit _)
      · cases h
        rfl
  | unconditionalBranchToRegister =>
      exact absurd (Option.some.inj h) visitUnconditionalBranchToRegister_taken
  | testBranch =>
      simp only [Visitor.branchStep, Option.some.injEq, visitTestBranch] at h
      split_ifs at h <;> first | exact absurd h (hcommit _) | (cases h; rfl)
  | compareBranch =>
      simp only [Visitor.branchStep, Option.some.injEq, visitCompareBranch] at h
      split at h
      · exact absurd h (hcommit _)
      · cases h
        rfl
      · split_ifs at h
        cases h
        rfl
  | unimplemented => cases h
  | unallocated => cases h
  | leaf run => cases h

/-! ## A stack of return addresses -/

/-- Return addresses as a call leaves them: aligned, and not null. -/
def ProperFrames (frames : List Addr) : Prop :=
  ∀ a ∈ frames, isWordAligned a = true ∧ a ≠ 0

/--
Over a base that reads as empty, a return to the most recent return address,
or to null when there is none, passes the comparison and pops that address.
-/
theorem checkGcs_frames {c : Core} {frames base : List Addr} (hgcs : c.gcs = frames ++ base)
    (hbase : base.headD 0 = 0) (hproper : ProperFrames frames) :
    ∃ d, checkGcs c (frames.headD 0) = some d ∧ d.gcs = frames.tail ++ base := by
  cases frames with
  | nil =>
      have hpeek : c.gcsPeek = 0 := by rw [Core.gcsPeek, hgcs, List.nil_append, hbase]
      exact ⟨c, by simp [checkGcs, hpeek], hgcs⟩
  | cons a frames =>
      have hpeek : c.gcsPeek = a := by simp [Core.gcsPeek, hgcs]
      obtain ⟨halign, hne⟩ := hproper a (by simp)
      have hnonzero : (a == 0) = false := beq_eq_false_iff_ne.mpr hne
      refine ⟨c.gcsPop, ?_, ?_⟩
      · simp only [checkGcs, hpeek, hnonzero, halign, List.headD_cons, bne_self_eq_false]
        simp
      · simp [Core.gcsPop, hgcs]

end GabyVm.Aarch64
