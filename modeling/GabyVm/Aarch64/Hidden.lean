import GabyVm.Aarch64.GuardedStack

/-!
# State that a branch leaves aside

A host can read and write the registers and the memory of the guest.  Besides
these, an instruction may change the switch and tags of memory tagging, the
exclusive monitors, the random generator and the features in force.  No branch
reads any of it, nor the memory.
-/

namespace GabyVm.Aarch64

/-! ## Hidden state -/

/-- The switch of memory tagging and the tags of the granules. -/
structure Tagging where
  active : Bool
  tags : Addr → Option (BitVec 4)

/-- What two taggings have in common, `t` has too. -/
structure Tagging.Between (t u v : Tagging) : Prop where
  active : u.active = v.active → t.active = u.active
  tags : ∀ key, u.tags key = v.tags key → t.tags key = u.tags key

theorem Tagging.between_right (u v : Tagging) : v.Between u v where
  active h := h.symm
  tags _ h := h.symm

/-- The state that instructions change and no host program can read or write. -/
structure Hidden where
  tagging : Tagging
  localMonitor : SimExclusiveLocalMonitor
  globalMonitorSeed : BitVec 32
  randGen : BitVec 64
  cpuFeatures : CPUFeatures
  savedCpuFeatures : List CPUFeatures

namespace Hidden

/-- What two hidden states have in common, `t` has too. -/
structure Between (t u v : Hidden) : Prop where
  tagging : t.tagging.Between u.tagging v.tagging
  monitorAddress : u.localMonitor.address = v.localMonitor.address →
    t.localMonitor.address = u.localMonitor.address
  monitorSize : u.localMonitor.size = v.localMonitor.size →
    t.localMonitor.size = u.localMonitor.size
  monitorSeed : u.localMonitor.seed = v.localMonitor.seed →
    t.localMonitor.seed = u.localMonitor.seed
  globalMonitorSeed : u.globalMonitorSeed = v.globalMonitorSeed →
    t.globalMonitorSeed = u.globalMonitorSeed
  randGen : u.randGen = v.randGen → t.randGen = u.randGen
  cpuFeatures : u.cpuFeatures = v.cpuFeatures → t.cpuFeatures = u.cpuFeatures
  savedCpuFeatures : u.savedCpuFeatures = v.savedCpuFeatures →
    t.savedCpuFeatures = u.savedCpuFeatures

theorem between_right (u v : Hidden) : v.Between u v where
  tagging := Tagging.between_right u.tagging v.tagging
  monitorAddress h := h.symm
  monitorSize h := h.symm
  monitorSeed h := h.symm
  globalMonitorSeed h := h.symm
  randGen h := h.symm
  cpuFeatures h := h.symm
  savedCpuFeatures h := h.symm

end Hidden

/-- What no branch reads or writes. -/
structure Aside where
  memory : Memory
  hidden : Hidden

namespace Core

def tagging (c : Core) : Tagging := ⟨c.mteActive, c.mteTags⟩

def withTagging (c : Core) (t : Tagging) : Core :=
  { c with mteActive := t.active, mteTags := t.tags }

def hidden (c : Core) : Hidden where
  tagging := c.tagging
  localMonitor := c.localMonitor
  globalMonitorSeed := c.globalMonitorSeed
  randGen := c.randGen
  cpuFeatures := c.cpuFeatures
  savedCpuFeatures := c.savedCpuFeatures

def withHidden (c : Core) (h : Hidden) : Core :=
  { c.withTagging h.tagging with
    localMonitor := h.localMonitor
    globalMonitorSeed := h.globalMonitorSeed
    randGen := h.randGen
    cpuFeatures := h.cpuFeatures
    savedCpuFeatures := h.savedCpuFeatures }

def aside (c : Core) : Aside := ⟨c.memory, c.hidden⟩

def withAside (c : Core) (x : Aside) : Core := { c.withHidden x.hidden with memory := x.memory }

@[simp] theorem withHidden_self (c : Core) : c.withHidden c.hidden = c := rfl

@[simp] theorem withHidden_hidden (c : Core) (h : Hidden) : (c.withHidden h).hidden = h := rfl

@[simp] theorem withHidden_withHidden (c : Core) (h h' : Hidden) :
    (c.withHidden h).withHidden h' = c.withHidden h' := rfl

end Core

/-! ## Branches -/

namespace BranchStep

def mapCore (f : Core → Core) : BranchStep → BranchStep
  | .fallThrough c => .fallThrough (f c)
  | .commit target c => .commit target (f c)
  | .abort reason c => .abort reason (f c)

def core : BranchStep → Core
  | .fallThrough c => c
  | .commit _ c => c
  | .abort _ c => c

end BranchStep

theorem commitImmTarget_withAside (E : Env) (w : Word) (c : Core) (x : Aside) :
    commitImmTarget E w (c.withAside x) = (commitImmTarget E w c).mapCore (·.withAside x) := by
  have hpc : (c.withAside x).pc = c.pc := rfl
  simp only [commitImmTarget, hpc]
  split_ifs <;> rfl

theorem checkGcs_withAside (c : Core) (addr : Addr) (x : Aside) :
    checkGcs (c.withAside x) addr = (checkGcs c addr).map (·.withAside x) := by
  have hpeek : (c.withAside x).gcsPeek = c.gcsPeek := rfl
  have henabled : (c.withAside x).gcsEnabled = c.gcsEnabled := rfl
  simp only [checkGcs, hpeek, henabled]
  split_ifs <;> rfl

theorem visitUnconditionalBranchToRegister_withAside (E : Env) (w : Word) (c : Core) (x : Aside) :
    visitUnconditionalBranchToRegister E w (c.withAside x) =
      (visitUnconditionalBranchToRegister E w c).mapCore (·.withAside x) := by
  have hbranch : registerBranch (c.withAside x) w = registerBranch c w := rfl
  have htarget : registerTarget (c.withAside x) w = registerTarget c w := rfl
  simp only [visitUnconditionalBranchToRegister, hbranch, htarget, checkGcs_withAside]
  split
  · rfl
  split
  · rfl
  cases (registerBranch c w).ret with
  | false =>
      cases (registerBranch c w).link <;> rfl
  | true =>
      cases checkGcs c (registerTarget c w) with
      | none => rfl
      | some d => cases (registerBranch c w).link <;> rfl

theorem branchStep_withAside (E : Env) (v : Visitor) (w : Word) (c : Core) (x : Aside) :
    v.branchStep E w (c.withAside x) =
      (v.branchStep E w c).map (·.mapCore (·.withAside x)) := by
  have himm := commitImmTarget_withAside E w c x
  have hlink : linkNext (c.withAside x) = (linkNext c).withAside x := rfl
  have hread (r : BitVec 5) : (c.withAside x).readXRegister r = c.readXRegister r := rfl
  have hreadW (r : BitVec 5) : (c.withAside x).readWRegister r = c.readWRegister r := rfl
  have hpassed (cond : BitVec 4) :
      (c.withAside x).conditionPassed cond = c.conditionPassed cond := rfl
  have hform : (c.withAside x).formHash = c.formHash := rfl
  cases v with
  | unconditionalBranch =>
      simp only [Visitor.branchStep, visitUnconditionalBranch, himm, hlink,
        commitImmTarget_withAside, Option.map_some]
      split_ifs <;> rfl
  | conditionalBranch =>
      simp only [Visitor.branchStep, visitConditionalBranch, himm, hpassed, hform,
        Option.map_some]
      split_ifs <;> rfl
  | unconditionalBranchToRegister =>
      exact congrArg some (visitUnconditionalBranchToRegister_withAside E w c x)
  | testBranch =>
      simp only [Visitor.branchStep, visitTestBranch, himm, hread, Option.map_some]
      split_ifs <;> rfl
  | compareBranch =>
      simp only [Visitor.branchStep, visitCompareBranch, himm, hread, hreadW, Option.map_some]
      split
      · rfl
      · rfl
      · split_ifs <;> rfl
  | unimplemented => rfl
  | unallocated => rfl
  | leaf run => rfl

theorem branchStep_aside {E : Env} {v : Visitor} {w : Word} {c : Core} {step : BranchStep}
    (h : v.branchStep E w c = some step) : step.core.aside = c.aside := by
  have hsame := branchStep_withAside E v w c c.aside
  have hself : c.withAside c.aside = c := rfl
  rw [hself, h, Option.map_some, Option.some.injEq] at hsame
  cases step <;> exact congrArg (fun s => s.core.aside) hsame

theorem branchStep_memory {E : Env} {v : Visitor} {w : Word} {c : Core} {step : BranchStep}
    (h : v.branchStep E w c = some step) : step.core.memory = c.memory :=
  congrArg Aside.memory (branchStep_aside h)

theorem branchStep_hidden {E : Env} {v : Visitor} {w : Word} {c : Core} {step : BranchStep}
    (h : v.branchStep E w c = some step) : step.core.hidden = c.hidden :=
  congrArg Aside.hidden (branchStep_aside h)

theorem branchStep_withHidden (E : Env) (v : Visitor) (w : Word) (c : Core) (h : Hidden) :
    v.branchStep E w (c.withHidden h) =
      (v.branchStep E w c).map (·.mapCore (·.withHidden h)) := by
  have haside : c.withHidden h = c.withAside ⟨c.memory, h⟩ := rfl
  rw [haside, branchStep_withAside]
  cases hstep : v.branchStep E w c with
  | none => rfl
  | some step =>
      rw [← branchStep_memory hstep]
      cases step <;> rfl

end GabyVm.Aarch64
