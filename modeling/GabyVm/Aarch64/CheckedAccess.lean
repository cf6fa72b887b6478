import GabyVm.Aarch64.MemoryAccess

/-!
# Checked memory accesses

An access is refused when it meets a guard region of the guest's stack, when
memory tagging is on and the tag of the pointer is not that of the memory, or,
in a build with implicit checks, when the host cannot make it.  A refusal
aborts, but for the last, on which the instruction returns early.  A leaf that
stores makes a planned sequence of accesses, and the stores it makes are those
before the first refusal.
-/

namespace GabyVm.Aarch64

/-! ## Stack guards and allocation tags -/

/-- The bounds of the stack that is allocated for the guest. -/
structure SimStack where
  data : Addr
  allocSize : Addr
  limit : Addr
  base : Addr
  deriving DecidableEq, Repr

def SimStack.isAccessInGuardRegion (s : SimStack) (start : Addr) (size : Nat) : Bool :=
  let stop := start + BitVec.ofNat 64 size - 1
  let dataEnd := s.data + s.allocSize - 1
  (start ≤ dataEnd && s.base ≤ stop) || (start ≤ s.limit && s.data ≤ stop)

def getAllocationTagFromAddress (a : Addr) : BitVec 4 := a.extractLsb' 56 4

def mteTagGranuleInBytes : Addr := 16

def generateMTEkey (a : Addr) : Addr := addressUntag a >>> 4

def getMTETag (tags : Addr → Option (BitVec 4)) (a : Addr) : Option (BitVec 4) :=
  tags (generateMTEkey a)

def Core.setMTETag (c : Core) (a : Addr) (tag : BitVec 4) : Core :=
  { c with mteTags := fun key => if key = generateMTEkey a then some tag else c.mteTags key }

/-! ## Verdicts -/

inductive Verdict where
  | granted
  /-- The host cannot make the access; only a build with implicit checks notices. -/
  | failed
  | aborts (message : String)
  deriving DecidableEq, Repr

/-- What decides an access besides the address and the tags. -/
structure AccessChecks where
  /-- Whether the build has assertions on. -/
  vixlDebug : Bool
  stack : SimStack
  /-- The switch of memory tagging when the instruction begins; none flips it and then accesses. -/
  mteActive : Bool
  /-- Always true in a build without implicit checks. -/
  tryMemoryAccess : Addr → Nat → Bool

namespace AccessChecks

/-- A release build without implicit checks, the stack out of reach, memory tagging off. -/
def off : AccessChecks := ⟨false, ⟨-1, 1, 0, -1⟩, false, fun _ _ => true⟩

/-- The checks as the switch stands. -/
def under (m : AccessChecks) (c : Core) : AccessChecks := { m with mteActive := c.mteActive }

def unallocatedMessage (pc a : Addr) : String :=
  "MTE ERROR : instruction at 0x" ++ String.ofList (Nat.toDigits 16 pc.toNat) ++
    " touched a unallocated memory location 0x" ++
    String.ofList (Nat.toDigits 16 a.toNat) ++ ".\n"

/-- The checks of `Memory::Read` and `Memory::Write`, in their order. -/
def verdict (m : AccessChecks) (tags : Addr → Option (BitVec 4)) (guardMessage : String)
    (pc a : Addr) (size : Nat) : Verdict :=
  if m.stack.isAccessInGuardRegion (addressUntag a) size then .aborts guardMessage
  else if m.mteActive && (getMTETag tags a).isNone then
    .aborts (unallocatedMessage pc (addressUntag a))
  else if m.mteActive && getMTETag tags a != some (getAllocationTagFromAddress a) then
    .aborts "Tag mismatch."
  else if m.tryMemoryAccess (addressUntag a) size then .granted
  else .failed

def read (m : AccessChecks) (c : Core) : Addr → Addr → Nat → Verdict :=
  m.verdict c.mteTags "Attempt to read from stack guard region"

def write (m : AccessChecks) (c : Core) : Addr → Addr → Nat → Verdict :=
  m.verdict c.mteTags "Attempt to write to stack guard region"

def passes (m : AccessChecks) (tags : Addr → Option (BitVec 4)) (a : Addr) (size : Nat) : Bool :=
  !m.stack.isAccessInGuardRegion (addressUntag a) size &&
    (!m.mteActive || getMTETag tags a == some (getAllocationTagFromAddress a))

def reaches (m : AccessChecks) (a : Addr) (size : Nat) : Bool :=
  m.tryMemoryAccess (addressUntag a) size

theorem verdict_cases (m : AccessChecks) (tags : Addr → Option (BitVec 4)) (message : String)
    (pc a : Addr) (size : Nat) :
    (m.verdict tags message pc a size = .granted ∧ m.passes tags a size = true ∧
        m.reaches a size = true) ∨
      (m.verdict tags message pc a size = .failed ∧ m.passes tags a size = true ∧
        m.reaches a size = false) ∨
      (∃ text, m.verdict tags message pc a size = .aborts text ∧
        m.passes tags a size = false) := by
  simp only [verdict, passes, reaches]
  cases m.mteActive with
  | false =>
      simp only [Bool.false_and, Bool.false_eq_true, if_false]
      split_ifs with hguard hhost <;> simp [*]
  | true =>
      cases htag : getMTETag tags a with
      | none => split_ifs with hguard <;> simp_all
      | some tag => split_ifs with hguard _ hmatch hhost <;> simp_all

end AccessChecks

/-! ## Planned accesses -/

/-- An access that an instruction sets out to make. -/
inductive Access where
  | read (a : Addr) (size : Nat)
  | write (a : Addr) (size : Nat)
  /-- A store whose failure goes unnoticed. -/
  | fill (a : Addr) (size : Nat)
  deriving DecidableEq, Repr

/-- The addresses that a planned sequence of accesses stores to. -/
def stored (m : AccessChecks) (tags : Addr → Option (BitVec 4)) : List Access → List Addr
  | [] => []
  | .read a size :: rest =>
      if m.passes tags a size && m.reaches a size then stored m tags rest else []
  | .write a size :: rest =>
      if m.passes tags a size && m.reaches a size then a :: stored m tags rest else []
  | .fill a size :: rest =>
      if m.passes tags a size then
        if m.reaches a size then a :: stored m tags rest else stored m tags rest
      else []

end GabyVm.Aarch64
