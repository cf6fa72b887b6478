import GabyVm.Aarch64.LeafMonad
import Mathlib.Logic.Function.Basic

/-!
# Leaves that nobody observes

Without an observer a leaf runs through its stores to a final state or to an
abort.  There is one rule for each step of a leaf whose access is granted.
-/

namespace GabyVm.Aarch64

/-- The final state of a leaf, or the message and the state it aborts with. -/
def LeafProg.quiet : LeafProg → Except (String × Core) Core
  | .done c => .ok c
  | .abort message c => .error (message, c)
  | .store _ c next => (next c).quiet

/-! ## Granted accesses -/

def AccessChecks.grants (m : AccessChecks) (tags : Addr → Option (BitVec 4)) (a : Addr)
    (size : Nat) : Bool :=
  m.passes tags a size && m.reaches a size

theorem AccessChecks.verdict_of_grants {m : AccessChecks} {tags : Addr → Option (BitVec 4)}
    {a : Addr} {size : Nat} (h : m.grants tags a size = true) (message : String) (pc : Addr) :
    m.verdict tags message pc a size = .granted := by
  rw [grants, Bool.and_eq_true] at h
  rcases m.verdict_cases tags message pc a size with
    ⟨hv, -, -⟩ | ⟨-, -, hreach⟩ | ⟨text, -, hpass⟩
  · exact hv
  · rw [h.2] at hreach
    cases hreach
  · rw [h.1] at hpass
    cases hpass

namespace LeafM

variable {m : AccessChecks} {c : Core} {a : Addr} {size : Nat}

theorem quiet_check {ok : Bool} {message : String} {k : Unit → Core → LeafProg} (h : ok = true) :
    (check ok message c k).quiet = (k () c).quiet := by
  rw [check, if_pos h]

theorem quiet_memRead {k : BitVec (8 * size) → Core → LeafProg}
    (h : m.grants c.mteTags a size = true) :
    (memRead m size a c k).quiet = (k (readBytes c.memory (addressUntag a) size) c).quiet := by
  simp only [memRead, settle, AccessChecks.read, AccessChecks.verdict_of_grants h]

theorem quiet_memWrite {value : BitVec (8 * size)} {k : Unit → Core → LeafProg}
    (h : m.grants c.mteTags a size = true) :
    (memWrite m size a value c k).quiet =
      (k () (c.writeMemory a (value.setWidth 128) size)).quiet := by
  simp only [memWrite, settle, AccessChecks.write, AccessChecks.verdict_of_grants h]
  rfl

end LeafM

/-! ## Register writes -/

theorem registers_writeRegister (c : Core) (code : Fin 32) (value : BitVec 64) (i : Fin 32) :
    (c.writeRegister code value).registers i = if i = code then value else c.registers i := rfl

theorem readXRegister_writeTransfer (c : Core) (r s : BitVec 5) (value : BitVec 64) :
    (writeTransfer c r value).readXRegister s =
      if s = r ∧ r ≠ 31 then value else c.readXRegister s := by
  by_cases hr : r = 31
  · rw [writeTransfer, if_pos hr, if_neg fun h => h.2 hr]
  · rw [writeTransfer, if_neg hr, Core.readXRegister, registers_writeRegister]
    by_cases hs : s = r
    · subst hs
      rw [if_neg hr, if_pos rfl, if_pos ⟨rfl, hr⟩]
    · have hfin : s.toFin ≠ r.toFin := fun h => hs (BitVec.toFin_inj.mp h)
      simp [hs, hfin, Core.readXRegister]

/-! ## Single bytes -/

theorem readBytes_one (mem : Memory) (a : Addr) : LeafM.readBytes mem a 1 = mem a := by
  apply BitVec.eq_of_getLsbD_eq
  intro i hi
  simp only [LeafM.readBytes, BitVec.getLsbD_cast, BitVec.getLsbD_append]
  simp

theorem storeBytes_one (mem : Memory) (a : Addr) (value : BitVec 8) :
    storeBytes mem a (value.setWidth 128) 1 = Function.update mem a value := by
  funext x
  by_cases hx : x = a
  · rw [hx, Function.update_self]
    simp only [storeBytes, BitVec.sub_self]
    apply BitVec.eq_of_getLsbD_eq
    intro i hi
    simp [show i < 128 by omega, hi]
  · have hne : (x - a).toNat ≠ 0 := by
      intro hzero
      have hsub : x - a = 0 := BitVec.eq_of_toNat_eq hzero
      exact hx (by simpa [hsub] using (BitVec.sub_add_cancel x a).symm)
    rw [Function.update_of_ne hx, storeBytes, if_neg (by omega)]

end GabyVm.Aarch64
