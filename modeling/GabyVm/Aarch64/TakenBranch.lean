import GabyVm.Aarch64.BranchVisitors

/-!
# Taken branches

When the architecture takes a branch, whether it links, and where it goes, read
off the encoding: bit 24 tells the two tests and the two compares apart, bit
31 the calls with an immediate, and bits 22 and 21 those through a register.
The visitors of the branch forms agree with this reading.
-/

namespace GabyVm.Aarch64

def branchTaken (v : Visitor) (w : Word) (c : Core) : Bool :=
  match v with
  | .conditionalBranch => c.conditionPassed w.getConditionBranch
  | .testBranch => (c.readXRegister w.getRt).getLsbD (testBranchBitPos w) == w.getLsbD 24
  | .compareBranch =>
      let zero := if w.getLsbD 31 then c.readXRegister w.getRt == 0
        else c.readWRegister w.getRt == 0
      zero != w.getLsbD 24
  | _ => true

def branchLinks (v : Visitor) (w : Word) : Bool :=
  match v with
  | .unconditionalBranch => w.getLsbD 31
  | .unconditionalBranchToRegister => !w.getLsbD 22 && w.getLsbD 21
  | _ => false

def branchTarget (v : Visitor) (w : Word) (c : Core) : Addr :=
  match v with
  | .unconditionalBranchToRegister => registerTarget c w
  | _ => getImmPCOffsetTarget c.pc w

/-- The state `c'` in which a taken branch asks for the commit of `target`. -/
structure Takes (v : Visitor) (w : Word) (c : Core) (target : Addr) (c' : Core) : Prop where
  taken : branchTaken v w c = true
  target_eq : target = branchTarget v w c
  pc : c'.pc = c.pc
  link : branchLinks v w = true → c'.readLr = c.pc + instructionSize

/-- A branch is not taken and changes nothing, aborts, or asks for a commit. -/
def StepsAs (v : Visitor) (w : Word) (c : Core) : BranchStep → Prop
  | .fallThrough c' => c' = c ∧ branchTaken v w c = false
  | .abort _ _ => True
  | .commit target c' => Takes v w c target c'

theorem getLsbD_of_mask {w mask value : Word} (h : w &&& mask = value) (i : Nat)
    (hi : mask.getLsbD i = true) :
    w.getLsbD i = value.getLsbD i := by
  rw [← h, BitVec.getLsbD_and, hi, Bool.and_true]

theorem commitImmTarget_stepsAs {E : Env} {v : Visitor} {w : Word} {c c' : Core}
    (htaken : branchTaken v w c = true) (htarget : branchTarget v w c = getImmPCOffsetTarget c.pc w)
    (hpc : c'.pc = c.pc)
    (hlink : branchLinks v w = true → c'.readLr = c.pc + instructionSize) :
    StepsAs v w c (commitImmTarget E w c') := by
  unfold commitImmTarget
  split_ifs
  · trivial
  · exact ⟨htaken, by rw [htarget, hpc], hpc, hlink⟩

theorem linkNext_readLr (c : Core) : (linkNext c).readLr = c.pc + instructionSize := rfl

theorem visitUnconditionalBranch_stepsAs {E : Env} {w value : Word} {c : Core}
    (hmask : w &&& unconditionalBranchMask = value) (hvalue : value = B ∨ value = BL) :
    StepsAs .unconditionalBranch w c (visitUnconditionalBranch E w c) := by
  have hbit := getLsbD_of_mask hmask 31 (by decide)
  rcases hvalue with rfl | rfl
  · have hlink : branchLinks .unconditionalBranch w = false := hbit
    simp only [visitUnconditionalBranch, hmask]
    exact commitImmTarget_stepsAs rfl rfl rfl (fun h => by rw [hlink] at h; cases h)
  · simp only [visitUnconditionalBranch, hmask]
    exact commitImmTarget_stepsAs rfl rfl rfl (fun _ => linkNext_readLr c)

theorem visitConditionalBranch_stepsAs {E : Env} {w : Word} {c : Core} {form : String}
    (hform : form = "b_only_condbranch" ∨ form = "bc_only_condbranch")
    (hhash : c.formHash = formHash form) :
    StepsAs .conditionalBranch w c (visitConditionalBranch E w c) := by
  have hnamed : (c.formHash == formHash "b_only_condbranch" ||
      c.formHash == formHash "bc_only_condbranch") = true := by
    rcases hform with rfl | rfl <;> simp [hhash]
  simp only [visitConditionalBranch, hnamed, Bool.not_true, Bool.and_false,
    Bool.false_eq_true, if_false]
  split_ifs with hcond
  · exact commitImmTarget_stepsAs hcond rfl rfl (fun h => by cases h)
  · exact ⟨rfl, by simpa [branchTaken] using hcond⟩

theorem visitTestBranch_stepsAs {E : Env} {w value : Word} {c : Core}
    (hmask : w &&& testBranchMask = value) (hvalue : value = TBZ ∨ value = TBNZ) :
    StepsAs .testBranch w c (visitTestBranch E w c) := by
  have hbit := getLsbD_of_mask hmask 24 (by decide)
  cases htest : (c.readXRegister w.getRt).getLsbD (testBranchBitPos w) <;>
    rcases hvalue with rfl | rfl
  · have htaken : branchTaken .testBranch w c = true := by
      simp only [branchTaken, htest, hbit]
      rfl
    simp only [visitTestBranch, hmask, htest]
    exact commitImmTarget_stepsAs htaken rfl rfl (fun h => by cases h)
  · simp only [visitTestBranch, hmask, htest]
    refine ⟨rfl, ?_⟩
    simp only [branchTaken, htest, hbit]
    rfl
  · simp only [visitTestBranch, hmask, htest]
    refine ⟨rfl, ?_⟩
    simp only [branchTaken, htest, hbit]
    rfl
  · have htaken : branchTaken .testBranch w c = true := by
      simp only [branchTaken, htest, hbit]
      rfl
    simp only [visitTestBranch, hmask, htest]
    exact commitImmTarget_stepsAs htaken rfl rfl (fun h => by cases h)

theorem visitCompareBranch_stepsAs {E : Env} {w value : Word} {c : Core}
    (hmask : w &&& compareBranchMask = value)
    (hvalue : value = CBZ_w ∨ value = CBZ_x ∨ value = CBNZ_w ∨ value = CBNZ_x) :
    StepsAs .compareBranch w c (visitCompareBranch E w c) := by
  have hnonzero := getLsbD_of_mask hmask 24 (by decide)
  have hwide := getLsbD_of_mask hmask 31 (by decide)
  have htaken (h : branchTaken .compareBranch w c = true) :
      StepsAs .compareBranch w c (commitImmTarget E w c) :=
    commitImmTarget_stepsAs h rfl rfl (fun h => by cases h)
  have hkept (h : branchTaken .compareBranch w c = false) :
      StepsAs .compareBranch w c (.fallThrough c) := ⟨rfl, h⟩
  simp only [branchTaken, hnonzero, hwide] at htaken hkept
  rcases hvalue with rfl | rfl | rfl | rfl
  · cases hzero : c.readWRegister w.getRt == 0
    all_goals simp only [visitCompareBranch, hmask, bne, hzero]
    · exact hkept (by simpa [CBZ_w] using hzero)
    · exact htaken (by simpa [CBZ_w] using hzero)
  · cases hzero : c.readXRegister w.getRt == 0
    all_goals simp only [visitCompareBranch, hmask, bne, hzero]
    · exact hkept (by simpa [CBZ_x] using hzero)
    · exact htaken (by simpa [CBZ_x] using hzero)
  · cases hzero : c.readWRegister w.getRt == 0
    all_goals simp only [visitCompareBranch, hmask, bne, hzero]
    · exact htaken (by simpa [CBNZ_w, bne] using hzero)
    · exact hkept (by simpa [CBNZ_w, bne] using hzero)
  · cases hzero : c.readXRegister w.getRt == 0
    all_goals simp only [visitCompareBranch, hmask, bne, hzero]
    · exact htaken (by simpa [CBNZ_x, bne] using hzero)
    · exact hkept (by simpa [CBNZ_x, bne] using hzero)

/-! ## Register branches -/

def registerBranchOps : List Word :=
  [BR, BLR, RET, BRAAZ, BRABZ, BLRAAZ, BLRABZ, RETAA, RETAB, BRAA, BRAB, BLRAA, BLRAB]

theorem branchLinks_register {w op : Word} (hop : op ∈ registerBranchOps)
    (hmask : registerBranchOp w = op) :
    isRegisterBranchOp w = true ∧
      branchLinks .unconditionalBranchToRegister w = isLinkOp w := by
  have hhigh := getLsbD_of_mask hmask 22 (by decide)
  have hlow := getLsbD_of_mask hmask 21 (by decide)
  simp only [isRegisterBranchOp, isLinkOp, branchLinks, hmask, hhigh, hlow]
  clear hmask hhigh hlow
  simp only [registerBranchOps, List.mem_cons, List.not_mem_nil, or_false] at hop
  rcases hop with rfl | rfl | rfl | rfl | rfl | rfl | rfl | rfl | rfl | rfl | rfl | rfl | rfl <;>
    decide

theorem isLinkOp_link {c : Core} {w : Word} (h : isLinkOp w = true) :
    (registerBranch c w).link = true := by
  simp only [isLinkOp, Bool.or_eq_true, beq_iff_eq] at h
  rcases h with (((h | h) | h) | h) | h
  all_goals
    simp only [registerBranch, isLinkOp, h]
    rfl

theorem checkGcs_pc {c c' : Core} {addr : Addr} (h : checkGcs c addr = some c') :
    c'.pc = c.pc := by
  simp only [checkGcs] at h
  split_ifs at h <;> cases h <;> rfl

theorem visitUnconditionalBranchToRegister_stepsAs {E : Env} {w op : Word} {c : Core}
    (hop : op ∈ registerBranchOps) (hmask : registerBranchOp w = op) :
    StepsAs .unconditionalBranchToRegister w c
      (visitUnconditionalBranchToRegister E w c) := by
  obtain ⟨hvalid, hlinks⟩ := branchLinks_register hop hmask
  simp only [visitUnconditionalBranchToRegister, hvalid, Bool.not_true, Bool.and_false,
    Bool.false_eq_true, if_false]
  split
  · trivial
  · split
    · trivial
    · rename_i c' hgcs
      have hpc : c'.pc = c.pc := by
        split_ifs at hgcs
        · exact checkGcs_pc hgcs
        · cases hgcs
          rfl
      refine ⟨rfl, rfl, ?_, ?_⟩
      · split_ifs <;> exact hpc
      · intro hlink
        rw [hlinks] at hlink
        rw [if_pos (isLinkOp_link hlink), ← hpc]
        rfl

/-! ## All branch forms -/

theorem branchForm_stepsAs (E : Env) {row : BranchForm} (hrow : row ∈ branchForms) {w : Word}
    (hmask : w &&& row.mask = row.value) {c : Core}
    (hhash : c.formHash = formHash row.form) :
    ∃ step, row.visitor.branchStep E w c = some step ∧ StepsAs row.visitor w c step := by
  simp only [branchForms, List.mem_cons, List.not_mem_nil, or_false] at hrow
  rcases hrow with rfl | rfl | rfl | rfl | rfl | rfl | rfl | rfl | rfl | rfl | hrow
  · exact ⟨_, rfl, visitUnconditionalBranch_stepsAs hmask (.inl rfl)⟩
  · exact ⟨_, rfl, visitUnconditionalBranch_stepsAs hmask (.inr rfl)⟩
  · exact ⟨_, rfl, visitConditionalBranch_stepsAs (.inl rfl) hhash⟩
  · exact ⟨_, rfl, visitConditionalBranch_stepsAs (.inr rfl) hhash⟩
  · exact ⟨_, rfl, visitCompareBranch_stepsAs hmask (.inr (.inr (.inl rfl)))⟩
  · exact ⟨_, rfl, visitCompareBranch_stepsAs hmask (.inr (.inr (.inr rfl)))⟩
  · exact ⟨_, rfl, visitCompareBranch_stepsAs hmask (.inl rfl)⟩
  · exact ⟨_, rfl, visitCompareBranch_stepsAs hmask (.inr (.inl rfl))⟩
  · exact ⟨_, rfl, visitTestBranch_stepsAs hmask (.inr rfl)⟩
  · exact ⟨_, rfl, visitTestBranch_stepsAs hmask (.inl rfl)⟩
  · rcases hrow with rfl | rfl | rfl | rfl | rfl | rfl | rfl | rfl | rfl | rfl | rfl | rfl | rfl
    all_goals
      exact ⟨_, rfl, visitUnconditionalBranchToRegister_stepsAs
        (by simp [registerBranchOps]) hmask⟩

theorem branchStep_of_other {E : Env} {hash : FormHash}
    (hbranch : ∀ row ∈ branchForms, hash ≠ formHash row.form)
    (hreturn : ∀ form ∈ exceptionReturnForms, hash ≠ formHash form) (w : Word) (c : Core) :
    (visitorOf E hash).branchStep E w c = none := by
  unfold visitorOf resolveLeaf
  cases hfind : namedRows.find? fun row => row.1 == hash with
  | none => cases E.leaf hash <;> rfl
  | some row =>
      have hmem := List.mem_of_find?_eq_some hfind
      have hkey : row.1 = hash := by simpa using List.find?_some hfind
      simp only [namedRows, List.mem_append, List.mem_map, List.mem_singleton] at hmem
      rcases hmem with ((⟨r, hr, rfl⟩ | ⟨form, hform, rfl⟩) | ⟨form, -, rfl⟩) | rfl
      · exact absurd hkey.symm (hbranch r hr)
      · exact absurd hkey.symm (hreturn form hform)
      · rfl
      · rfl

end GabyVm.Aarch64
