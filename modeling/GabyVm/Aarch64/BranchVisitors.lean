import GabyVm.Aarch64.Decoder
import GabyVm.Aarch64.PointerAuth
import Mathlib.Tactic.SplitIfs

/-!
# The branch visitors

Each of the five visitors computes on the interpreter state and, when the
branch is taken, ends by committing a target through the shared hook helper.
That last act needs the host, so a visitor answers a `BranchStep`: it falls
through, asks for a commit, or aborts.
-/

namespace GabyVm.Aarch64

inductive BranchStep where
  | fallThrough (c : Core)
  /-- The visitor ends in `GabyHookedWritePc(target)`. -/
  | commit (target : Addr) (c : Core)
  | abort (reason : Abort) (c : Core)

/-- Commit the immediate target of the instruction at the program counter. -/
def commitImmTarget (E : Env) (w : Word) (c : Core) : BranchStep :=
  if E.vixlDebug && !isPCRelAddressing w && getBranchType w == .unknownBranchType then
    .abort (.check "GetBranchType() != UnknownBranchType") c
  else .commit (getImmPCOffsetTarget c.pc w) c

/-- The link register and the guarded control stack both get the next address. -/
def linkNext (c : Core) : Core :=
  (c.writeLr c.getNextInstruction).gcsPush c.getNextInstruction

def visitUnconditionalBranch (E : Env) (w : Word) (c : Core) : BranchStep :=
  let op := w &&& unconditionalBranchMask
  if op == BL then commitImmTarget E w (linkNext c)
  else if op == B then commitImmTarget E w c
  else if E.vixlDebug then .abort .unreachable c
  else .fallThrough c

def visitConditionalBranch (E : Env) (w : Word) (c : Core) : BranchStep :=
  if E.vixlDebug && !(c.formHash == formHash "b_only_condbranch" ||
      c.formHash == formHash "bc_only_condbranch") then
    .abort (.check ("(form_hash_ == \"b_only_condbranch\"_h) || " ++
      "(form_hash_ == \"bc_only_condbranch\"_h)")) c
  else if c.conditionPassed w.getConditionBranch then commitImmTarget E w c
  else .fallThrough c

def testBranchBitPos (w : Word) : Nat :=
  (w.getImmTestBranchBit5 ++ w.getImmTestBranchBit40).toNat

def visitTestBranch (E : Env) (w : Word) (c : Core) : BranchStep :=
  let bitZero := !(c.readXRegister w.getRt).getLsbD (testBranchBitPos w)
  let op := w &&& testBranchMask
  if op == TBZ then
    if bitZero then commitImmTarget E w c else .fallThrough c
  else if op == TBNZ then
    if bitZero then .fallThrough c else commitImmTarget E w c
  else if E.vixlDebug then .abort .unimplemented c
  else .fallThrough c

def visitCompareBranch (E : Env) (w : Word) (c : Core) : BranchStep :=
  let op := w &&& compareBranchMask
  let take : Option Bool :=
    if op == CBZ_w then some (c.readWRegister w.getRt == 0)
    else if op == CBZ_x then some (c.readXRegister w.getRt == 0)
    else if op == CBNZ_w then some (c.readWRegister w.getRt != 0)
    else if op == CBNZ_x then some (c.readXRegister w.getRt != 0)
    else none
  match take with
  | some true => commitImmTarget E w c
  | some false => .fallThrough c
  | none => if E.vixlDebug then .abort .unimplemented c else .fallThrough c

/-! ## Register branches -/

/-- What the switch on the operation settles. -/
structure RegisterBranch where
  authenticate : Bool
  link : Bool
  /-- A return, whose target is compared with the guarded control stack. -/
  ret : Bool
  addr : Addr
  context : BitVec 64

def registerBranchOp (w : Word) : Word := w &&& unconditionalBranchToRegisterMask

def isRegisterBranchOp (w : Word) : Bool :=
  let op := registerBranchOp w
  op == BR || op == BLR || op == RET || op == BRAAZ || op == BRABZ || op == BLRAAZ ||
    op == BLRABZ || op == RETAA || op == RETAB || op == BRAA || op == BRAB ||
    op == BLRAA || op == BLRAB

def isLinkOp (w : Word) : Bool :=
  let op := registerBranchOp w
  op == BLR || op == BLRAAZ || op == BLRABZ || op == BLRAA || op == BLRAB

def isRetOp (w : Word) : Bool :=
  let op := registerBranchOp w
  op == RET || op == RETAA || op == RETAB

def registerBranch (c : Core) (w : Word) : RegisterBranch :=
  let op := registerBranchOp w
  let addr := c.readXRegister w.getRn
  if op == BLR || op == BR then
    { authenticate := false, link := isLinkOp w, ret := false, addr, context := 0 }
  else if op == BLRAAZ || op == BLRABZ || op == BRAAZ || op == BRABZ then
    { authenticate := true, link := isLinkOp w, ret := false, addr, context := 0 }
  else if op == BLRAA || op == BLRAB || op == BRAA || op == BRAB then
    { authenticate := true, link := isLinkOp w, ret := false, addr,
      context := c.readXRegister w.getRd }
  else if op == RETAA || op == RETAB then
    { authenticate := true, link := false, ret := true, addr := c.readLr,
      context := c.readSp }
  else if op == RET then
    { authenticate := false, link := false, ret := true, addr, context := 0 }
  else { authenticate := false, link := false, ret := false, addr, context := 0 }

/-- The address a register branch goes to, before any check on it. -/
def registerTarget (c : Core) (w : Word) : Addr :=
  let branch := registerBranch c w
  if branch.authenticate then
    authPAC branch.addr branch.context (if w.getLsbD 10 then PACKeyIB else PACKeyIA)
  else branch.addr

/--
The comparison of a return address with the top of the guarded control stack.
An entry is popped even for a return to the null link register; `none` is a
reported failure.
-/
def checkGcs (c : Core) (addr : Addr) : Option Core :=
  let expectedLr := c.gcsPeek
  if expectedLr == 0 then some c
  else if (!isWordAligned expectedLr || addr != 0 && addr != expectedLr) && c.gcsEnabled then
    none
  else some c.gcsPop

def getBTypeFromInstruction (c : Core) (w : Word) : BType :=
  let op := registerBranchOp w
  if isLinkOp w then .branchAndLink
  else if op == BR || op == BRAA || op == BRAB || op == BRAAZ || op == BRABZ then
    if w.getRn == 16 || w.getRn == 17 || !c.guardPages then .branchFromUnguardedOrToIP
    else .branchFromGuardedNotToIP
  else .default

def visitUnconditionalBranchToRegister (E : Env) (w : Word) (c : Core) : BranchStep :=
  let branch := registerBranch c w
  let addr := registerTarget c w
  if E.vixlDebug && !isRegisterBranchOp w then .abort .unreachable c
  else if branch.authenticate && authFailed addr then .abort .authenticationFailed c
  else
    match if branch.ret then checkGcs c addr else some c with
    -- The report prints, and so pops, the eight most recent entries.
    | none => .abort .gcsFailed { c with gcs := c.gcs.drop 8 }
    | some c =>
        let c := if branch.link then linkNext c else c
        .commit addr (c.writeNextBType (getBTypeFromInstruction c w))

/-- What a branch visitor answers; the other visitors are no branches. -/
def Visitor.branchStep (E : Env) (v : Visitor) (w : Word) (c : Core) : Option BranchStep :=
  match v with
  | .unconditionalBranch => some (visitUnconditionalBranch E w c)
  | .conditionalBranch => some (visitConditionalBranch E w c)
  | .unconditionalBranchToRegister => some (visitUnconditionalBranchToRegister E w c)
  | .testBranch => some (visitTestBranch E w c)
  | .compareBranch => some (visitCompareBranch E w c)
  | .unimplemented => none
  | .unallocated => none
  | .leaf _ => none

theorem commitImmTarget_reason {E : Env} {w : Word} {c c' : Core} {reason : Abort}
    (h : commitImmTarget E w c = .abort reason c') :
    reason ≠ .wrongBType := by
  unfold commitImmTarget at h
  split_ifs at h
  cases h
  simp

theorem branchStep_reason {E : Env} {v : Visitor} {w : Word} {c c' : Core} {reason : Abort}
    (h : v.branchStep E w c = some (.abort reason c')) :
    reason ≠ .wrongBType := by
  cases v with
  | unconditionalBranch =>
      simp only [Visitor.branchStep, Option.some.injEq, visitUnconditionalBranch] at h
      split_ifs at h
      · exact commitImmTarget_reason h
      · exact commitImmTarget_reason h
      · cases h
        simp
  | conditionalBranch =>
      simp only [Visitor.branchStep, Option.some.injEq, visitConditionalBranch] at h
      split_ifs at h
      · cases h
        simp
      · exact commitImmTarget_reason h
  | unconditionalBranchToRegister =>
      simp only [Visitor.branchStep, Option.some.injEq,
        visitUnconditionalBranchToRegister] at h
      split at h
      · cases h
        simp
      · split at h
        · cases h
          simp
        · split at h
          · cases h
            simp
          · cases h
  | testBranch =>
      simp only [Visitor.branchStep, Option.some.injEq, visitTestBranch] at h
      split_ifs at h
      · exact commitImmTarget_reason h
      · exact commitImmTarget_reason h
      · cases h
        simp
  | compareBranch =>
      simp only [Visitor.branchStep, Option.some.injEq, visitCompareBranch] at h
      split at h
      · exact commitImmTarget_reason h
      · cases h
      · split_ifs at h
        cases h
        simp
  | unimplemented => cases h
  | unallocated => cases h
  | leaf run => cases h

end GabyVm.Aarch64
