import GabyVm.Aarch64.Instruction
import Mathlib.Algebra.Group.Nat.Defs
import Mathlib.Data.List.Basic

/-!
# The table of guarded control stacks

All simulators of a process keep their guarded control stacks in one table.  A
stack is named by a token, the index of its slot shaped like a page address;
the slot of a freed stack is null and is given to the next stack allocated.  A
simulator holds the token of its stack together with a pointer to the storage.
-/

namespace GabyVm.Aarch64

/-- A storage is named by its place in the order of allocation. -/
abbrev StoragePtr := Nat

structure GuardedControlStack where
  ptr : StoragePtr
  token : Nat
  deriving DecidableEq, Repr

inductive GcsFault where
  /-- "Tried to double free GCS ". -/
  | doubleFree
  /-- `std::vector::at` throws. -/
  | outOfRange
  /-- A null pointer is dereferenced. -/
  | nullStorage
  deriving DecidableEq, Repr

/-! ## Slots -/

abbrev Slots := List (Option StoragePtr)

/-- The first null slot, or else a new one. -/
def firstFree (slots : Slots) : Nat := slots.findIdx (·.isNone)

def place (slots : Slots) (ptr : StoragePtr) : Slots :=
  if firstFree slots < slots.length then slots.set (firstFree slots) (some ptr)
  else slots ++ [some ptr]

theorem firstFree_unused (slots : Slots) (ptr : StoragePtr) :
    slots[firstFree slots]? ≠ some (some ptr) := by
  intro hslot
  obtain ⟨hlt, hget⟩ := List.getElem?_eq_some_iff.mp hslot
  have hnone : slots[firstFree slots].isNone = true := List.findIdx_getElem
  rw [hget] at hnone
  cases hnone

theorem place_getElem? (slots : Slots) (ptr : StoragePtr) (index : Nat) :
    (place slots ptr)[index]? =
      if index = firstFree slots then some (some ptr) else slots[index]? := by
  unfold place
  split_ifs with hfree hindex hindex
  · simp [hindex, hfree]
  · rw [List.getElem?_set_ne (Ne.symm hindex)]
  · have hlength : firstFree slots = slots.length :=
      Nat.le_antisymm List.findIdx_le_length (Nat.le_of_not_lt hfree)
    rw [hindex, hlength, List.getElem?_concat_length]
  · have hlength : firstFree slots = slots.length :=
      Nat.le_antisymm List.findIdx_le_length (Nat.le_of_not_lt hfree)
    rw [hlength] at hindex
    rcases Nat.lt_or_gt_of_ne hindex with hlt | hgt
    · rw [List.getElem?_append_left hlt]
    · rw [List.getElem?_eq_none (by simp; omega), List.getElem?_eq_none (by omega)]

/-! ## The manager -/

def kPageSizeLog2 : Nat := 12

def getGCSIndexFromToken (token : Nat) : Nat := token >>> kPageSizeLog2

def getGCSTokenFromIndex (index : Nat) : Nat := index <<< kPageSizeLog2

@[simp] theorem getGCSIndexFromToken_token (index : Nat) :
    getGCSIndexFromToken (getGCSTokenFromIndex index) = index := by
  simp [getGCSIndexFromToken, getGCSTokenFromIndex, Nat.shiftLeft_shiftRight]

structure GCSManager where
  stackSlots : Slots
  /-- The entries of a storage, most recent first. -/
  storage : StoragePtr → List Addr
  allocated : Nat
  bounded : ∀ (index : Nat) (ptr : StoragePtr), stackSlots[index]? = some (some ptr) →
    ptr < allocated
  distinct : ∀ (index index' : Nat) (ptr : StoragePtr), stackSlots[index]? = some (some ptr) →
    stackSlots[index']? = some (some ptr) → index = index'

namespace GCSManager

def empty : GCSManager where
  stackSlots := []
  storage _ := []
  allocated := 0
  bounded := by simp
  distinct := by simp

def setStorage (m : GCSManager) (ptr : StoragePtr) (entries : List Addr) : GCSManager :=
  { m with storage := fun p => if p = ptr then entries else m.storage p }

@[simp] theorem setStorage_stackSlots (m : GCSManager) (ptr : StoragePtr) (entries : List Addr) :
    (m.setStorage ptr entries).stackSlots = m.stackSlots := rfl

@[simp] theorem setStorage_self (m : GCSManager) (ptr : StoragePtr) (entries : List Addr) :
    (m.setStorage ptr entries).storage ptr = entries := by
  simp [setStorage]

theorem setStorage_ne (m : GCSManager) {ptr ptr' : StoragePtr} (entries : List Addr)
    (h : ptr' ≠ ptr) : (m.setStorage ptr entries).storage ptr' = m.storage ptr' := by
  simp [setStorage, h]

/-- A new stack holds its token as a seal. -/
def allocateStackInternal (m : GCSManager) : GuardedControlStack × GCSManager :=
  let token := getGCSTokenFromIndex (firstFree m.stackSlots)
  let grown : GCSManager :=
    { stackSlots := place m.stackSlots m.allocated
      storage := m.storage
      allocated := m.allocated + 1
      bounded := by
        intro index ptr hslot
        rw [place_getElem?] at hslot
        split_ifs at hslot
        · cases hslot
          exact Nat.lt_succ_self _
        · exact Nat.lt_succ_of_lt (m.bounded index ptr hslot)
      distinct := by
        intro index index' ptr hslot hslot'
        rw [place_getElem?] at hslot hslot'
        split_ifs at hslot hslot' with hfirst hsecond hsecond
        · exact hfirst.trans hsecond.symm
        · cases hslot
          exact absurd (m.bounded index' _ hslot') (Nat.lt_irrefl _)
        · cases hslot'
          exact absurd (m.bounded index _ hslot) (Nat.lt_irrefl _)
        · exact m.distinct index index' ptr hslot hslot' }
  (⟨m.allocated, token⟩, grown.setStorage m.allocated [BitVec.ofNat 64 (token + 1)])

/-- The storage is deleted and its slot is null from now on. -/
def release (m : GCSManager) (index : Nat) (ptr : StoragePtr) : GCSManager where
  stackSlots := m.stackSlots.set index none
  storage p := if p = ptr then [] else m.storage p
  allocated := m.allocated
  bounded := by
    intro i p hslot
    rw [List.getElem?_set] at hslot
    split_ifs at hslot
    · cases hslot
    · exact m.bounded i p hslot
  distinct := by
    intro i i' p hslot hslot'
    rw [List.getElem?_set] at hslot hslot'
    split_ifs at hslot hslot'
    · cases hslot
    · cases hslot
    · cases hslot'
    · exact m.distinct i i' p hslot hslot'

def freeStack (m : GCSManager) (token : Nat) : Except GcsFault GCSManager :=
  let index := getGCSIndexFromToken token
  match m.stackSlots[index]? with
  | none => .error .outOfRange
  | some none => .error .doubleFree
  | some (some ptr) => .ok (m.release index ptr)

/-- The storage a token names; the slot of a freed stack is null. -/
def getGCSPtr (m : GCSManager) (token : Nat) : Except GcsFault (Option StoragePtr) :=
  match m.stackSlots[getGCSIndexFromToken token]? with
  | none => .error .outOfRange
  | some slot => .ok slot

/-! ## Switching stacks -/

inductive Switch where
  | fault (fault : GcsFault)
  /-- A failed `VIXL_ASSERT`. -/
  | asserted (condition : String)
  /-- `ReportGCSFailure` prints, and so pops, eight entries and aborts. -/
  | failed (m : GCSManager)
  /-- Another stack may be active now, and a register may be written. -/
  | switched (m : GCSManager) (active : GuardedControlStack) (result : Option (BitVec 64))

/-- The storage behind a token that is dereferenced at once. -/
def derefToken (m : GCSManager) (token : Nat) : Except GcsFault StoragePtr :=
  match m.getGCSPtr token with
  | .error fault => .error fault
  | .ok none => .error .nullStorage
  | .ok (some ptr) => .ok ptr

/-- GCSSS1: activate the stack that the register names, if its seal fits. -/
def gcsss1 (m : GCSManager) (enabled : Bool) (own : GuardedControlStack) (rt : BitVec 64) :
    Switch :=
  let token := (rt &&& 0xffffffff).toNat
  match m.derefToken token with
  | .error fault => .fault fault
  | .ok ptr =>
      let incomingSeal := (m.storage ptr).headD 0
      let rest := (m.storage ptr).tail
      if (incomingSeal ^^^ rt != 1 || rest.length != (rt >>> 32).toNat) && enabled then
        .failed (m.setStorage ptr (rest.drop 8))
      else
        .switched (m.setStorage ptr (BitVec.ofNat 64 (own.token + 5) :: rest)) ⟨ptr, token⟩ none

/-- GCSSS2: seal the stack that GCSSS1 left, and answer its new token. -/
def gcsss2 (m : GCSManager) (enabled vixlDebug : Bool) (own : GuardedControlStack) : Switch :=
  let outgoingGcs := (m.storage own.ptr).headD 0
  let m := m.setStorage own.ptr (m.storage own.ptr).tail
  if outgoingGcs &&& 7 != 5 && enabled then
    .failed (m.setStorage own.ptr ((m.storage own.ptr).drop 8))
  else
    let token := outgoingGcs &&& ~~~0x3ff
    match m.derefToken token.toNat with
    | .error fault => .fault fault
    | .ok ptr =>
        let size := (m.storage ptr).length
        let outgoingSeal := BitVec.ofNat 64 size <<< 32 ||| (token + 1)
        if vixlDebug && 2 ^ 32 ≤ size then .asserted "IsUint32(size)"
        else if vixlDebug && 2 ^ 32 ≤ (token + 1).toNat then .asserted "IsUint32(outgoing_gcs + 1)"
        else
          .switched (m.setStorage ptr (outgoingSeal :: m.storage ptr)) own (some (outgoingSeal - 1))

/-! ## Stacks that are held -/

/-- The token names the slot of the storage. -/
def Holds (m : GCSManager) (g : GuardedControlStack) : Prop :=
  m.stackSlots[getGCSIndexFromToken g.token]? = some (some g.ptr)

theorem Holds.setStorage {m : GCSManager} {g : GuardedControlStack} (h : m.Holds g)
    (ptr : StoragePtr) (entries : List Addr) : (m.setStorage ptr entries).Holds g := h

theorem allocateStackInternal_holds (m : GCSManager) :
    m.allocateStackInternal.2.Holds m.allocateStackInternal.1 := by
  simp [Holds, allocateStackInternal, place_getElem?]

theorem Holds.ptr_ne_allocated {m : GCSManager} {g : GuardedControlStack} (h : m.Holds g) :
    g.ptr ≠ m.allocateStackInternal.1.ptr :=
  Nat.ne_of_lt (m.bounded _ _ h)

theorem Holds.allocate {m : GCSManager} {g : GuardedControlStack} (h : m.Holds g) :
    m.allocateStackInternal.2.Holds g := by
  have hindex : getGCSIndexFromToken g.token ≠ firstFree m.stackSlots := by
    intro hindex
    rw [Holds, hindex] at h
    exact firstFree_unused m.stackSlots g.ptr h
  simpa [Holds, allocateStackInternal, place_getElem?, hindex] using h

theorem storage_sealed (m : GCSManager) :
    m.allocateStackInternal.2.storage m.allocateStackInternal.1.ptr =
      [BitVec.ofNat 64 (m.allocateStackInternal.1.token + 1)] :=
  setStorage_self _ _ _

theorem storage_allocate (m : GCSManager) {ptr : StoragePtr}
    (h : ptr ≠ m.allocateStackInternal.1.ptr) :
    m.allocateStackInternal.2.storage ptr = m.storage ptr :=
  setStorage_ne _ _ h

theorem Holds.freeStack {m : GCSManager} {g : GuardedControlStack} (h : m.Holds g) :
    m.freeStack g.token = .ok (m.release (getGCSIndexFromToken g.token) g.ptr) := by
  rw [Holds] at h
  simp only [GCSManager.freeStack, h]

theorem Holds.release {m : GCSManager} {g g' : GuardedControlStack} (h : m.Holds g)
    (h' : m.Holds g') (hne : g'.ptr ≠ g.ptr) :
    (m.release (getGCSIndexFromToken g.token) g.ptr).Holds g' := by
  have hindex : getGCSIndexFromToken g.token ≠ getGCSIndexFromToken g'.token := by
    intro hindex
    rw [Holds, ← hindex, h] at h'
    exact hne (Option.some.inj (Option.some.inj h')).symm
  rw [Holds, GCSManager.release, List.getElem?_set_ne hindex]
  exact h'

theorem storage_release (m : GCSManager) (index : Nat) {ptr ptr' : StoragePtr}
    (h : ptr' ≠ ptr) :
    (m.release index ptr).storage ptr' = m.storage ptr' :=
  if_neg h

end GCSManager

end GabyVm.Aarch64
