import GabyVm.Aarch64.CheckedAccess

/-!
# Leaves that store

A leaf is written as a sequence of steps that may end it early or abort it.
`StoresAt` says of a leaf that it makes exactly the stores at some addresses
and reports each of them with its size and its bytes, whatever an observer does
to the guest in between, as long as it leaves alone what the instruction reads
again.  There is one rule for each step.
-/

namespace GabyVm.Aarch64

/-! ## Events -/

namespace MemoryWriteEvent

/-- The stored value, the high part in front. -/
def value (e : MemoryWriteEvent) : BitVec 128 := e.valueHi ++ e.valueLo

def Sized (e : MemoryWriteEvent) : Prop := e.size ∈ [1, 2, 4, 8, 16]

/-- No bit of the value is set above the size. -/
def Fits (e : MemoryWriteEvent) : Prop := e.value.toNat < 2 ^ (8 * e.size)

end MemoryWriteEvent

/-- The memory with the low bytes of the event's value at `a`. -/
def applyAt (mem : Memory) (a : Addr) (e : MemoryWriteEvent) : Memory :=
  storeBytes mem a e.value e.size

/-- What an instruction reads again between two of its stores. -/
structure Operands where
  mteTags : Addr → Option (BitVec 4)
  vregisters : Fin 32 → SimVRegister
  pregisters : Fin 16 → BitVec 256

def Core.operands (c : Core) : Operands := ⟨c.mteTags, c.vregisters, c.pregisters⟩

inductive StoresAt : List Addr → Memory → LeafProg → Prop where
  | done (c : Core) : StoresAt [] c.memory (.done c)
  | abort (message : String) (c : Core) : StoresAt [] c.memory (.abort message c)
  | store {as : List Addr} {mem : Memory} {e : MemoryWriteEvent} {c : Core}
      {next : Core → LeafProg} (hsized : e.Sized) (hfits : e.Fits)
      (hmem : c.memory = applyAt mem (addressUntag e.address) e)
      (hnext : ∀ c' : Core, c'.operands = c.operands → StoresAt as c'.memory (next c')) :
      StoresAt (e.address :: as) mem (.store e c next)

/-! ## Steps of a leaf -/

/-- A step of a leaf, given what comes after it. -/
def LeafM (α : Type) := Core → (α → Core → LeafProg) → LeafProg

namespace LeafM

instance : Monad LeafM where
  pure a := fun c k => k a c
  bind x f := fun c k => x c fun a c => f a c k

variable {α β : Type}

@[simp] theorem pure_apply (a : α) (c : Core) (k : α → Core → LeafProg) :
    (pure a : LeafM α) c k = k a c := rfl

@[simp] theorem bind_apply (x : LeafM α) (f : α → LeafM β) (c : Core)
    (k : β → Core → LeafProg) : (x >>= f) c k = x c fun a c => f a c k := rfl

def run (x : LeafM Unit) (c : Core) : LeafProg := x c fun _ c => .done c

def get : LeafM Core := fun c k => k c c

def modify (f : Core → Core) : LeafM Unit := fun c k => k () (f c)

def check (ok : Bool) (message : String) : LeafM Unit := fun c k =>
  if ok then k () c else .abort message c

def vixlAssert (m : AccessChecks) (ok : Bool) (condition : String) : LeafM Unit :=
  check (!m.vixlDebug || ok) ("Assertion failed (" ++ condition ++ ")")

@[simp] theorem get_apply (c : Core) (k : Core → Core → LeafProg) : get c k = k c c := rfl

@[simp] theorem modify_apply (f : Core → Core) (c : Core) (k : Unit → Core → LeafProg) :
    modify f c k = k () (f c) := rfl

/-- Go on, end early or abort. -/
def settle (v : Verdict) (granted failed : Core → LeafProg) : Core → LeafProg := fun c =>
  match v with
  | .granted => granted c
  | .failed => failed c
  | .aborts message => .abort message c

def readBytes (mem : Memory) (a : Addr) : (size : Nat) → BitVec (8 * size)
  | 0 => 0
  | n + 1 => (mem (a + BitVec.ofNat 64 n) ++ readBytes mem a n).cast (by omega)

/-- `MemRead` of a value of `size` bytes. -/
def memRead (m : AccessChecks) (size : Nat) (a : Addr) : LeafM (BitVec (8 * size)) :=
  fun c k =>
    settle (m.read c c.pc a size)
      (fun c => k (readBytes c.memory (addressUntag a) size) c) .done c

def memWrite (m : AccessChecks) (size : Nat) (a : Addr) (value : BitVec (8 * size)) :
    LeafM Unit := fun c k =>
  settle (m.write c c.pc a size) (fun c => Aarch64.memWrite size a value c (k ())) .done c

/-- `MemWrite` whose result is ignored. -/
def memFill (m : AccessChecks) (size : Nat) (a : Addr) (value : BitVec (8 * size)) :
    LeafM Unit := fun c k =>
  settle (m.write c c.pc a size) (fun c => Aarch64.memWrite size a value c (k ())) (k ()) c

/-- `MemWrite` of as many bytes of a 64-bit value; the event has all of the value. -/
def memWriteBytes (m : AccessChecks) (sizeInBytes : Nat) (a : Addr) (value : BitVec 64) :
    LeafM Unit := fun c k =>
  settle (m.write c 0 a sizeInBytes)
    (fun c => .store ⟨a, sizeInBytes, value, 0⟩
      (c.writeMemory a (value.setWidth 128) sizeInBytes) (k ()))
    .done c

/-! ## A rule for each step -/

section Rules

variable {m : AccessChecks} {size : Nat} {a : Addr} {c : Core} {rest : List Access}

theorem sized_le {size : Nat} (h : size ∈ [1, 2, 4, 8, 16]) : 8 * size ≤ 128 := by
  simp only [List.mem_cons, List.not_mem_nil, or_false] at h
  omega

theorem value_of_halves (wide : BitVec 128) :
    wide.extractLsb' 64 64 ++ wide.extractLsb' 0 64 = wide := by
  apply BitVec.eq_of_getLsbD_eq
  intro i hi
  simp only [BitVec.getLsbD_append, BitVec.getLsbD_extractLsb']
  by_cases h : i < 64
  · simp [h]
  · simp only [h, if_false, show i - 64 < 64 by omega, decide_true, Bool.true_and]
    congr 1
    omega

theorem storesAt_memWrite {as : List Addr} {value : BitVec (8 * size)}
    {next : Core → LeafProg} (hsize : size ∈ [1, 2, 4, 8, 16])
    (hnext : ∀ c' : Core, c'.operands = c.operands → StoresAt as c'.memory (next c')) :
    StoresAt (a :: as) c.memory (Aarch64.memWrite size a value c next) := by
  have hwide : MemoryWriteEvent.value ⟨a, size, (value.setWidth 128).extractLsb' 0 64,
      (value.setWidth 128).extractLsb' 64 64⟩ = value.setWidth 128 :=
    value_of_halves (value.setWidth 128)
  apply StoresAt.store (e := ⟨a, size, _, _⟩) hsize
  · have hle := sized_le hsize
    rw [MemoryWriteEvent.Fits, hwide, BitVec.toNat_setWidth_of_le hle]
    exact value.isLt
  · rw [applyAt, hwide]
    rfl
  · exact hnext

theorem memWrite_stores {value : BitVec (8 * size)} {k : Unit → Core → LeafProg}
    (hsize : size ∈ [1, 2, 4, 8, 16])
    (hnext : ∀ c' : Core, c'.operands = c.operands →
      StoresAt (stored m c.mteTags rest) c'.memory (k () c')) :
    StoresAt (stored m c.mteTags (.write a size :: rest)) c.memory
      (memWrite m size a value c k) := by
  rcases m.verdict_cases c.mteTags "Attempt to write to stack guard region" c.pc a size with
    ⟨hv, hpass, hreach⟩ | ⟨hv, hpass, hreach⟩ | ⟨text, hv, hpass⟩
  · simp only [memWrite, settle, AccessChecks.write, hv, stored, hpass, hreach, Bool.and_self,
      if_true]
    exact storesAt_memWrite hsize hnext
  · simp only [memWrite, settle, AccessChecks.write, hv, stored, hpass, hreach, Bool.and_false,
      Bool.false_eq_true, if_false]
    exact .done c
  · simp only [memWrite, settle, AccessChecks.write, hv, stored, hpass, Bool.false_and,
      Bool.false_eq_true, if_false]
    exact .abort text c

theorem memFill_stores {value : BitVec (8 * size)} {k : Unit → Core → LeafProg}
    (hsize : size ∈ [1, 2, 4, 8, 16])
    (hnext : ∀ c' : Core, c'.operands = c.operands →
      StoresAt (stored m c.mteTags rest) c'.memory (k () c')) :
    StoresAt (stored m c.mteTags (.fill a size :: rest)) c.memory
      (memFill m size a value c k) := by
  rcases m.verdict_cases c.mteTags "Attempt to write to stack guard region" c.pc a size with
    ⟨hv, hpass, hreach⟩ | ⟨hv, hpass, hreach⟩ | ⟨text, hv, hpass⟩
  · simp only [memFill, settle, AccessChecks.write, hv, stored, hpass, hreach, if_true]
    exact storesAt_memWrite hsize hnext
  · simp only [memFill, settle, AccessChecks.write, hv, stored, hpass, hreach,
      Bool.false_eq_true, if_false, if_true]
    exact hnext c rfl
  · simp only [memFill, settle, AccessChecks.write, hv, stored, hpass, Bool.false_eq_true,
      if_false]
    exact .abort text c

/-- The event has the whole value, so the caller has to have cut it to the size. -/
theorem memWriteBytes_stores {value : BitVec 64} {k : Unit → Core → LeafProg}
    (hsize : size ∈ [1, 2, 4, 8, 16]) (hvalue : value.toNat < 2 ^ (8 * size))
    (hnext : ∀ c' : Core, c'.operands = c.operands →
      StoresAt (stored m c.mteTags rest) c'.memory (k () c')) :
    StoresAt (stored m c.mteTags (.write a size :: rest)) c.memory
      (memWriteBytes m size a value c k) := by
  have hwide : MemoryWriteEvent.value ⟨a, size, value, 0⟩ = value.setWidth 128 := by
    apply BitVec.eq_of_toNat_eq
    have hvalue := value.isLt
    simp only [MemoryWriteEvent.value, BitVec.toNat_append, BitVec.toNat_setWidth]
    rw [Nat.mod_eq_of_lt (by omega)]
    simp
  rcases m.verdict_cases c.mteTags "Attempt to write to stack guard region" 0 a size with
    ⟨hv, hpass, hreach⟩ | ⟨hv, hpass, hreach⟩ | ⟨text, hv, hpass⟩
  · simp only [memWriteBytes, settle, AccessChecks.write, hv, stored, hpass, hreach,
      Bool.and_self, if_true]
    apply StoresAt.store (e := ⟨a, size, value, 0⟩) hsize
    · rw [MemoryWriteEvent.Fits, hwide, BitVec.toNat_setWidth_of_le (by omega)]
      exact hvalue
    · rw [applyAt, hwide]
      rfl
    · exact hnext
  · simp only [memWriteBytes, settle, AccessChecks.write, hv, stored, hpass, hreach,
      Bool.and_false, Bool.false_eq_true, if_false]
    exact .done c
  · simp only [memWriteBytes, settle, AccessChecks.write, hv, stored, hpass, Bool.false_and,
      Bool.false_eq_true, if_false]
    exact .abort text c

theorem memRead_stores {k : BitVec (8 * size) → Core → LeafProg}
    (hnext : StoresAt (stored m c.mteTags rest) c.memory
      (k (readBytes c.memory (addressUntag a) size) c)) :
    StoresAt (stored m c.mteTags (.read a size :: rest)) c.memory (memRead m size a c k) := by
  rcases m.verdict_cases c.mteTags "Attempt to read from stack guard region" c.pc a size with
    ⟨hv, hpass, hreach⟩ | ⟨hv, hpass, hreach⟩ | ⟨text, hv, hpass⟩
  · simp only [memRead, settle, AccessChecks.read, hv, stored, hpass, hreach, Bool.and_self,
      if_true]
    exact hnext
  · simp only [memRead, settle, AccessChecks.read, hv, stored, hpass, hreach, Bool.and_false,
      Bool.false_eq_true, if_false]
    exact .done c
  · simp only [memRead, settle, AccessChecks.read, hv, stored, hpass, Bool.false_and,
      Bool.false_eq_true, if_false]
    exact .abort text c

theorem check_stores {ok : Bool} {message : String} {as : List Addr}
    {k : Unit → Core → LeafProg} (hnext : ok = true → StoresAt as c.memory (k () c)) :
    StoresAt (if ok then as else []) c.memory (check ok message c k) := by
  cases ok with
  | true => exact hnext rfl
  | false => exact .abort message c

end Rules

/-! ## Steps that make planned accesses -/

/-- The steps that are taken when a condition holds. -/
def onlyIf (b : Bool) (x : LeafM Unit) : LeafM Unit := if b then x else pure ()

def forEach (f : α → LeafM Unit) : List α → LeafM Unit
  | [] => pure ()
  | a :: rest => do
      f a
      forEach f rest

/-- Started with these operands, `x` makes the planned accesses and then goes on. -/
def Makes (m : AccessChecks) (o : Operands) (x : LeafM Unit) (plan : List Access) : Prop :=
  ∀ (c : Core) (rest : List Access) (k : Unit → Core → LeafProg), c.operands = o →
    (∀ c' : Core, c'.operands = o → StoresAt (stored m o.mteTags rest) c'.memory (k () c')) →
    StoresAt (stored m o.mteTags (plan ++ rest)) c.memory (x c k)

namespace Makes

variable {m : AccessChecks} {o : Operands} {x y : LeafM Unit} {plan plan' : List Access}

theorem nothing : Makes m o (pure ()) [] := by
  intro c rest k hc hnext
  exact hnext c hc

theorem append (hx : Makes m o x plan) (hy : Makes m o y plan') :
    Makes m o (do x; y) (plan ++ plan') := by
  intro c rest k hc hnext
  rw [List.append_assoc]
  apply hx c (plan' ++ rest) _ hc
  intro c' hc'
  exact hy c' rest k hc' hnext

theorem modify {f : Core → Core} (hmem : ∀ c, (f c).memory = c.memory)
    (hoperands : ∀ c, (f c).operands = c.operands) : Makes m o (modify f) [] := by
  intro c rest k hc hnext
  have h := hnext (f c) ((hoperands c).trans hc)
  rw [hmem] at h
  exact h

/-- The state may be looked at first; what it settles of an address is among the operands. -/
theorem ofGet {f : Core → LeafM Unit} (hf : ∀ c, c.operands = o → Makes m o (f c) plan) :
    Makes m o (do f (← LeafM.get)) plan := by
  intro c rest k hc hnext
  exact hf c hc c rest k hc hnext

theorem memWrite {size : Nat} (hsize : size ∈ [1, 2, 4, 8, 16]) (a : Addr)
    (value : BitVec (8 * size)) : Makes m o (memWrite m size a value) [.write a size] := by
  intro c rest k hc hnext
  subst hc
  exact memWrite_stores hsize hnext

theorem memFill {size : Nat} (hsize : size ∈ [1, 2, 4, 8, 16]) (a : Addr)
    (value : BitVec (8 * size)) : Makes m o (memFill m size a value) [.fill a size] := by
  intro c rest k hc hnext
  subst hc
  exact memFill_stores hsize hnext

theorem memWriteBytes {size : Nat} (hsize : size ∈ [1, 2, 4, 8, 16]) (a : Addr)
    {value : BitVec 64} (hvalue : value.toNat < 2 ^ (8 * size)) :
    Makes m o (memWriteBytes m size a value) [.write a size] := by
  intro c rest k hc hnext
  subst hc
  exact memWriteBytes_stores hsize hvalue hnext

theorem memRead {size : Nat} (a : Addr) {f : BitVec (8 * size) → LeafM Unit}
    (hf : ∀ value, Makes m o (f value) plan) :
    Makes m o (do f (← memRead m size a)) (.read a size :: plan) := by
  intro c rest k hc hnext
  subst hc
  exact memRead_stores (hf _ c rest k rfl hnext)

theorem onlyIf {b : Bool} (hx : b = true → Makes m o x plan) :
    Makes m o (onlyIf b x) (if b then plan else []) := by
  cases b with
  | false => exact nothing
  | true => exact hx rfl

theorem forEach {f : α → LeafM Unit} {plans : α → List Access}
    (hf : ∀ a, Makes m o (f a) (plans a)) (as : List α) :
    Makes m o (forEach f as) (as.flatMap plans) := by
  induction as with
  | nil => exact nothing
  | cons a rest ih =>
      rw [List.flatMap_cons]
      exact (hf a).append ih

theorem finish {c : Core} (hx : Makes m c.operands x plan) :
    StoresAt (stored m c.mteTags plan) c.memory (x.run c) := by
  have h := hx c [] (fun _ c => .done c) rfl fun c' _ => .done c'
  rwa [List.append_nil] at h

end Makes

end LeafM

end GabyVm.Aarch64
