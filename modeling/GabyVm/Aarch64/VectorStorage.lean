import GabyVm.Aarch64.Decoder
import Mathlib.Tactic.SplitIfs

/-!
# Storage of a vector register

A vector register keeps the bytes of the longest vector length, the length that
is configured now, and two flags for the register log.  A write of a narrow
format clears the bytes above it up to the configured length, in one piece; the
loop that it took the place of cleared them one lane at a time.
-/

namespace GabyVm.Aarch64

/-! ## Formats -/

/-- The vector formats; `kFormatSVE` has the value of `kFormatVnB`. -/
inductive VectorFormat where
  | formatUndefined
  | format8B
  | format16B
  | format4H
  | format8H
  | format2S
  | format4S
  | format1D
  | format2D
  | formatB
  | formatH
  | formatS
  | formatD
  | formatSVEQ
  | formatSVEO
  | formatVnB
  | formatVnH
  | formatVnS
  | formatVnD
  | formatVnQ
  | formatVnO
  | format2H
  | format1Q
  deriving DecidableEq, Repr

def isSVEFormat : VectorFormat → Bool
  | .formatVnB | .formatVnH | .formatVnS | .formatVnD | .formatVnQ | .formatVnO => true
  | _ => false

/-- A failed assertion aborts in a build that has assertions. -/
def assertion (debug ok : Bool) (condition : String) : Except Abort Unit :=
  if debug && !ok then .error (.check condition) else .ok ()

/-- `VIXL_UNREACHABLE`, and what a build without assertions returns after it. -/
def unreachableOr {α : Type} (debug : Bool) (a : α) : Except Abort α :=
  if debug then .error .unreachable else .ok a

def laneSizeInBitsFromFormat (debug : Bool) (vform : VectorFormat) : Except Abort Nat := do
  assertion debug (vform != .formatUndefined) "vform != kFormatUndefined"
  match vform with
  | .formatB | .format8B | .format16B | .formatVnB => pure 8
  | .formatH | .format2H | .format4H | .format8H | .formatVnH => pure 16
  | .formatS | .format2S | .format4S | .formatVnS => pure 32
  | .formatD | .format1D | .format2D | .formatVnD => pure 64
  | .format1Q | .formatVnQ => pure 128
  | .formatVnO => pure 256
  | .formatUndefined | .formatSVEQ | .formatSVEO => unreachableOr debug 0

def laneCountFromFormat (debug : Bool) (vform : VectorFormat) : Except Abort Nat := do
  assertion debug (vform != .formatUndefined) "vform != kFormatUndefined"
  match vform with
  | .format16B => pure 16
  | .format8B | .format8H => pure 8
  | .format4H | .format4S => pure 4
  | .format2H | .format2S | .format2D => pure 2
  | .format1D | .format1Q | .formatB | .formatH | .formatS | .formatD => pure 1
  | _ => unreachableOr debug 0

def registerSizeInBitsFromFormat (debug : Bool) (vform : VectorFormat) : Except Abort Nat := do
  assertion debug (vform != .formatUndefined) "vform != kFormatUndefined"
  assertion debug (!isSVEFormat vform) "!IsSVEFormat(vform)"
  match vform with
  | .formatB => pure 8
  | .formatH => pure 16
  | .formatS | .format2H => pure 32
  | .formatD | .format8B | .format4H | .format2S | .format1D => pure 64
  | .format16B | .format8H | .format4S | .format2D | .format1Q => pure 128
  | _ => unreachableOr debug 0

/-- The lanes of a format make up its register. -/
theorem registerSizeInBits_lanes (debug : Bool) {vform : VectorFormat}
    (h : isSVEFormat vform = false) :
    registerSizeInBitsFromFormat debug vform =
      (laneSizeInBitsFromFormat debug vform).bind fun size =>
        (laneCountFromFormat debug vform).map (size * ·) := by
  cases vform <;> first | cases debug <;> rfl | cases h

def registerSizeInBytesFromFormat (debug : Bool) (vform : VectorFormat) : Except Abort Nat := do
  let bits ← registerSizeInBitsFromFormat debug vform
  pure (bits / 8)

/-! ## Registers -/

def zRegMaxSizeInBytes : Nat := 256

abbrev RegisterBytes := Fin zRegMaxSizeInBytes → BitVec 8

def memsetZero (value : RegisterBytes) (start count : Nat) : RegisterBytes := fun i =>
  if start ≤ i ∧ i < start + count then 0 else value i

/-- A vector register as `LogicVRegister` sees it. -/
structure LogicVRegister where
  value : RegisterBytes
  /-- The configured vector length. -/
  sizeInBytes : Nat
  writtenSinceLastLog : Bool
  accessedAsZ : Bool
  size_le : sizeInBytes ≤ zRegMaxSizeInBytes

namespace LogicVRegister

def notifyRegisterWrite (r : LogicVRegister) : LogicVRegister :=
  { r with writtenSinceLastLog := true }

def notifyAccessAsZ (r : LogicVRegister) : LogicVRegister := { r with accessedAsZ := true }

def clearTail (r : LogicVRegister) (start : Nat) : LogicVRegister :=
  if start < r.sizeInBytes then
    { r with value := memsetZero r.value start (r.sizeInBytes - start) }.notifyRegisterWrite
  else r

def clearForWrite (debug : Bool) (r : LogicVRegister) (vform : VectorFormat) :
    Except Abort LogicVRegister :=
  if isSVEFormat vform then .ok r
  else do
    let size ← registerSizeInBytesFromFormat debug vform
    pure (r.clearTail size)

/-! ## The loop over lanes -/

/-- Copy the low `size` bytes of the value over a lane of as many bytes. -/
def writeLane (debug : Bool) (r : LogicVRegister) (size : Nat) (value : BitVec 64) (lane : Nat) :
    Except Abort LogicVRegister := do
  assertion debug (size + lane * size ≤ r.sizeInBytes)
    "(sizeof(src) + (lane * sizeof(src))) <= GetSizeInBytes()"
  pure { r with value := fun i =>
    if lane * size ≤ i ∧ i < lane * size + size then
      value.extractLsb' (8 * (i - lane * size)) 8
    else r.value i }

def insert (debug : Bool) (r : LogicVRegister) (size lane : Nat) (value : BitVec 64) :
    Except Abort LogicVRegister := do
  let r ← r.writeLane debug size value lane
  pure r.notifyRegisterWrite

def setUint (debug : Bool) (r : LogicVRegister) (vform : VectorFormat) (index : Nat)
    (value : BitVec 64) : Except Abort LogicVRegister := do
  let r := if isSVEFormat vform then r.notifyAccessAsZ else r
  let laneSize ← laneSizeInBitsFromFormat debug vform
  if laneSize ∈ [8, 16, 32, 64] then r.insert debug (laneSize / 8) index value
  else unreachableOr debug r

/-- Set `count` bytes from `i` on to zero, one lane after the other. -/
def zeroLanes (debug : Bool) : Nat → Nat → LogicVRegister → Except Abort LogicVRegister
  | _, 0, r => .ok r
  | i, count + 1, r => do
      let r ← r.setUint debug .format16B i 0
      zeroLanes debug (i + 1) count r

/-- The loop that the bulk clear took the place of. -/
def clearForWriteByByte (debug : Bool) (r : LogicVRegister) (vform : VectorFormat) :
    Except Abort LogicVRegister :=
  if isSVEFormat vform then .ok r
  else do
    let size ← registerSizeInBytesFromFormat debug vform
    zeroLanes debug size (r.sizeInBytes - size) r

/-! ## The loop and the bulk clear -/

theorem memsetZero_zero (value : RegisterBytes) (start : Nat) :
    memsetZero value start 0 = value := by
  funext i
  have hempty : ¬(start ≤ i.val ∧ i.val < start + 0) := by omega
  simp only [memsetZero, if_neg hempty]

theorem memsetZero_succ (value : RegisterBytes) (start count : Nat) :
    memsetZero (memsetZero value start 1) (start + 1) count =
      memsetZero value start (count + 1) := by
  funext i
  simp only [memsetZero]
  split_ifs
  all_goals first | rfl | omega

theorem writeLane_zero (debug : Bool) (r : LogicVRegister) {i : Nat} (hi : i < r.sizeInBytes) :
    r.writeLane debug 1 0 i = .ok { r with value := memsetZero r.value i 1 } := by
  have hassert : assertion debug (1 + i * 1 ≤ r.sizeInBytes)
      "(sizeof(src) + (lane * sizeof(src))) <= GetSizeInBytes()" = .ok () := by
    have hlane : 1 + i * 1 ≤ r.sizeInBytes := by omega
    simp only [assertion, hlane, decide_true, Bool.not_true, Bool.and_false,
      Bool.false_eq_true, if_false]
  have hvalue : (fun j : Fin zRegMaxSizeInBytes =>
      if i * 1 ≤ j.val ∧ j.val < i * 1 + 1 then
        (0 : BitVec 64).extractLsb' (8 * (j.val - i * 1)) 8
      else r.value j) = memsetZero r.value i 1 := by
    funext j
    simp [memsetZero]
  rw [writeLane, hassert, ← hvalue]
  rfl

theorem setUint_zero (debug : Bool) (r : LogicVRegister) {i : Nat} (hi : i < r.sizeInBytes) :
    r.setUint debug .format16B i 0 =
      .ok { r with value := memsetZero r.value i 1 }.notifyRegisterWrite := by
  have hlane : laneSizeInBitsFromFormat debug .format16B = .ok 8 := by cases debug <;> rfl
  have hinsert : r.insert debug 1 i 0 =
      .ok { r with value := memsetZero r.value i 1 }.notifyRegisterWrite := by
    rw [insert, writeLane_zero debug r hi]
    rfl
  rw [← hinsert, setUint, hlane]
  rfl

/-- The loop over the lanes is one clear and, unless it is empty, one notification. -/
theorem zeroLanes_eq (debug : Bool) (r : LogicVRegister) {i count : Nat}
    (hbound : i + count ≤ r.sizeInBytes) :
    zeroLanes debug i count r =
      .ok { r with
        value := memsetZero r.value i count
        writtenSinceLastLog := r.writtenSinceLastLog || count != 0 } := by
  induction count generalizing i r with
  | zero =>
      simp [zeroLanes, memsetZero_zero]
  | succ count ih =>
      have hstep := setUint_zero debug r (show i < r.sizeInBytes by omega)
      have hrest := ih { r with value := memsetZero r.value i 1 }.notifyRegisterWrite
        (i := i + 1) (show i + 1 + count ≤ r.sizeInBytes by omega)
      simp only [zeroLanes, hstep]
      refine hrest.trans ?_
      simp [notifyRegisterWrite, memsetZero_succ]

theorem clearTail_eq (r : LogicVRegister) (start : Nat) :
    r.clearTail start =
      { r with
        value := memsetZero r.value start (r.sizeInBytes - start)
        writtenSinceLastLog := r.writtenSinceLastLog || r.sizeInBytes - start != 0 } := by
  unfold clearTail
  split_ifs with h
  · have hcount : (r.sizeInBytes - start != 0) = true := by
      rw [bne_iff_ne]
      omega
    simp only [notifyRegisterWrite, hcount, Bool.or_true]
  · have hcount : r.sizeInBytes - start = 0 := by omega
    simp [hcount, memsetZero_zero]

/-- What a clear for a format of `size` bytes does to a register. -/
structure ClearsAbove (size : Nat) (r r' : LogicVRegister) : Prop where
  below : ∀ i : Fin zRegMaxSizeInBytes, i < size → r'.value i = r.value i
  tail : ∀ i : Fin zRegMaxSizeInBytes, size ≤ i → i < r.sizeInBytes → r'.value i = 0
  above : ∀ i : Fin zRegMaxSizeInBytes, r.sizeInBytes ≤ i → r'.value i = r.value i
  notified : size < r.sizeInBytes → r'.writtenSinceLastLog = true
  fills : r.sizeInBytes ≤ size → r' = r
  sizeInBytes : r'.sizeInBytes = r.sizeInBytes
  accessedAsZ : r'.accessedAsZ = r.accessedAsZ

theorem clearTail_clears (r : LogicVRegister) (size : Nat) :
    ClearsAbove size r (r.clearTail size) := by
  refine ⟨?_, ?_, ?_, ?_, ?_, ?_, ?_⟩
  · intro i hi
    have hout : ¬(size ≤ i.val ∧ i.val < size + (r.sizeInBytes - size)) := by omega
    simp only [clearTail_eq, memsetZero, if_neg hout]
  · intro i hi hlt
    have hin : size ≤ i.val ∧ i.val < size + (r.sizeInBytes - size) := by omega
    simp only [clearTail_eq, memsetZero, if_pos hin]
  · intro i hi
    have hout : ¬(size ≤ i.val ∧ i.val < size + (r.sizeInBytes - size)) := by omega
    simp only [clearTail_eq, memsetZero, if_neg hout]
  · intro hlt
    simp only [clearTail, if_pos hlt, notifyRegisterWrite]
  · intro hle
    simp only [clearTail, if_neg (show ¬size < r.sizeInBytes by omega)]
  · simp only [clearTail_eq]
  · simp only [clearTail_eq]

/--
For every register, every configured length and every format, in every build,
the bulk clear and the loop give the same result: nothing for an SVE format,
and the clear above the format's size for any other.
-/
theorem clearForWrite_eq_byByte (debug : Bool) (r : LogicVRegister) (vform : VectorFormat) :
    r.clearForWrite debug vform = r.clearForWriteByByte debug vform ∧
      (isSVEFormat vform = true → r.clearForWrite debug vform = .ok r) ∧
      ∀ size, isSVEFormat vform = false →
        registerSizeInBytesFromFormat debug vform = .ok size →
        ∃ r', r.clearForWrite debug vform = .ok r' ∧ ClearsAbove size r r' := by
  refine ⟨?_, ?_, ?_⟩
  · unfold clearForWrite clearForWriteByByte
    split_ifs
    · rfl
    · cases registerSizeInBytesFromFormat debug vform with
      | error e => rfl
      | ok size =>
          change Except.ok (r.clearTail size) = zeroLanes debug size (r.sizeInBytes - size) r
          rcases Nat.le_total size r.sizeInBytes with hle | hge
          · rw [zeroLanes_eq debug r (by omega), clearTail_eq]
          · rw [Nat.sub_eq_zero_of_le hge, clearTail, if_neg (by omega)]
            rfl
  · intro hsve
    rw [clearForWrite, if_pos hsve]
  · intro size hsve hsize
    refine ⟨r.clearTail size, ?_, clearTail_clears r size⟩
    rw [clearForWrite, if_neg (by simp [hsve]), hsize]
    rfl

end LogicVRegister

end GabyVm.Aarch64
