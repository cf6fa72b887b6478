import GabyVm.Aarch64.BranchVisitors
import GabyVm.Aarch64.RegisterLeaves
import Mathlib.Tactic.Tauto

/-!
# Signed pointers

Adding an authentication code to a pointer, the instructions that add, check
and strip codes, and what becomes of a pointer that is signed and later
authenticated with the same key and context.
-/

namespace GabyVm.Aarch64

def PACKeyDA : PACKey := ⟨0x5caef808deb8b1e2, 0xd347cbc06b7b0f77, 0⟩

def PACKeyDB : PACKey := ⟨0xe06aa1a949ba8cc7, 0xcfde69e3db6d0432, 1⟩

def addPAC (ptr context : BitVec 64) (key : PACKey) : BitVec 64 :=
  let ttbr := ptr >>> 55 &&& 1
  let extPtr := if ttbr == 0 then ptr &&& ~~~pacMask else ptr ||| pacMask
  let pac := computePAC extPtr context key
  -- A pointer without a proper extension gets a code that will not authenticate.
  let pac :=
    if ptr &&& (pacMask ||| ttbrMask) != 0 && ~~~ptr &&& (pacMask ||| ttbrMask) != 0 then
      pac ^^^ 1#64 <<< (getTopPACBit - 1)
    else pac
  (pac &&& pacMask) ||| ttbr <<< 55 ||| (ptr &&& ~~~pacMask)

/-! ## Fields of a pointer -/

theorem pacMask_getLsbD {i : Nat} (hi : i < 64) :
    pacMask.getLsbD i = decide (48 ≤ i ∧ i < 55) := by
  have hall : ∀ i < 64, pacMask.getLsbD i = decide (48 ≤ i ∧ i < 55) := by decide +kernel
  exact hall i hi

theorem ttbrMask_getLsbD {i : Nat} (hi : i < 64) : ttbrMask.getLsbD i = decide (i = 55) := by
  have hall : ∀ i < 64, ttbrMask.getLsbD i = decide (i = 55) := by decide +kernel
  exact hall i hi

theorem and_ttbrMask (ptr : BitVec 64) :
    ptr &&& ttbrMask = if ptr.getLsbD 55 then ttbrMask else 0 := BitVec.and_twoPow ptr 55

theorem ttbr_eq (ptr : BitVec 64) : ptr >>> 55 &&& 1 = if ptr.getLsbD 55 then 1 else 0 := by
  have hbit := BitVec.and_twoPow (ptr >>> 55) 0
  rw [BitVec.getLsbD_ushiftRight] at hbit
  exact hbit

theorem stripPAC_eq (ptr : BitVec 64) :
    stripPAC ptr = if ptr.getLsbD 55 then ptr ||| pacMask else ptr &&& ~~~pacMask := by
  rw [stripPAC, and_ttbrMask]
  cases ptr.getLsbD 55 with
  | true =>
      have hset : (ttbrMask == 0) = false := by decide
      rw [if_pos rfl, if_pos rfl, hset]
      simp
  | false => simp

theorem ttbr_shiftLeft (ptr : BitVec 64) : (ptr >>> 55 &&& 1) <<< 55 = ptr &&& ttbrMask := by
  rw [ttbr_eq, and_ttbrMask]
  cases ptr.getLsbD 55 <;> decide

/-- Bits 48 to 55 are all clear. -/
def LowHalf (ptr : BitVec 64) : Prop := ptr &&& (pacMask ||| ttbrMask) = 0

/-- Bits 48 to 55 are all set. -/
def HighHalf (ptr : BitVec 64) : Prop := ~~~ptr &&& (pacMask ||| ttbrMask) = 0

instance decidableLowHalf (ptr : BitVec 64) : Decidable (LowHalf ptr) :=
  inferInstanceAs (Decidable (_ = _))

instance decidableHighHalf (ptr : BitVec 64) : Decidable (HighHalf ptr) :=
  inferInstanceAs (Decidable (_ = _))

theorem fieldMask_getLsbD {i : Nat} (hi : i < 64) :
    (pacMask ||| ttbrMask).getLsbD i = decide (48 ≤ i ∧ i ≤ 55) := by
  rw [BitVec.getLsbD_or, pacMask_getLsbD hi, ttbrMask_getLsbD hi, ← Bool.decide_or,
    decide_eq_decide]
  omega

theorem lowHalf_iff (ptr : BitVec 64) :
    LowHalf ptr ↔ ∀ i, 48 ≤ i → i ≤ 55 → ptr.getLsbD i = false := by
  constructor
  · intro h i hlow hhigh
    have hbit := congrArg (fun v => v.getLsbD i) h
    simpa [fieldMask_getLsbD (show i < 64 by omega), hlow, hhigh] using hbit
  · intro h
    apply BitVec.eq_of_getLsbD_eq
    intro i hi
    rw [BitVec.getLsbD_and, fieldMask_getLsbD hi]
    by_cases hin : 48 ≤ i ∧ i ≤ 55
    · rw [h i hin.1 hin.2]
      simp
    · simp [hin]

theorem highHalf_iff (ptr : BitVec 64) :
    HighHalf ptr ↔ ∀ i, 48 ≤ i → i ≤ 55 → ptr.getLsbD i = true := by
  have hnot : HighHalf ptr ↔ LowHalf (~~~ptr) := Iff.rfl
  rw [hnot, lowHalf_iff]
  constructor
  · intro h i hlow hhigh
    have hbit := h i hlow hhigh
    rw [BitVec.getLsbD_not] at hbit
    simpa [show i < 64 by omega] using hbit
  · intro h i hlow hhigh
    rw [BitVec.getLsbD_not, h i hlow hhigh]
    simp

/-! ## Codes in pointers -/

theorem addPAC_eq (ptr context : BitVec 64) (key : PACKey) :
    addPAC ptr context key =
      ((if LowHalf ptr ∨ HighHalf ptr then computePAC (stripPAC ptr) context key
        else computePAC (stripPAC ptr) context key ^^^ 1#64 <<< 54) &&& pacMask) |||
      (ptr &&& ~~~pacMask) := by
  have hext : (if ptr >>> 55 &&& 1 == 0 then ptr &&& ~~~pacMask else ptr ||| pacMask) =
      stripPAC ptr := by
    rw [stripPAC_eq, ttbr_eq]
    cases ptr.getLsbD 55 <;> rfl
  have hspoil : (ptr &&& (pacMask ||| ttbrMask) != 0 && ~~~ptr &&& (pacMask ||| ttbrMask) != 0) =
      !decide (LowHalf ptr ∨ HighHalf ptr) := by
    rw [← Bool.coe_iff_coe]
    simp only [Bool.and_eq_true, bne_iff_ne, ne_eq, Bool.not_eq_true', decide_eq_false_iff_not,
      not_or]
    exact Iff.rfl
  have hkeep : (ptr &&& ttbrMask) ||| (ptr &&& ~~~pacMask) = ptr &&& ~~~pacMask := by
    rw [← BitVec.and_or_distrib_left]
    congr 1
  simp only [addPAC, hext, hspoil, ttbr_shiftLeft, BitVec.or_assoc, hkeep]
  by_cases hhalf : LowHalf ptr ∨ HighHalf ptr
  · simp [hhalf]
  · simp [hhalf, getTopPACBit]

theorem merge_getLsbD (code ptr : BitVec 64) {i : Nat} (hi : i < 64) :
    ((code &&& pacMask) ||| (ptr &&& ~~~pacMask)).getLsbD i =
      if 48 ≤ i ∧ i < 55 then code.getLsbD i else ptr.getLsbD i := by
  simp only [BitVec.getLsbD_or, BitVec.getLsbD_and, BitVec.getLsbD_not, pacMask_getLsbD hi, hi,
    decide_true, Bool.true_and]
  split_ifs with hin <;> simp [hin]

/-- A code is stored over bits 48 to 54 and stripping does not look at them. -/
theorem stripPAC_merge (code ptr : BitVec 64) :
    stripPAC ((code &&& pacMask) ||| (ptr &&& ~~~pacMask)) = stripPAC ptr := by
  have htop : ((code &&& pacMask) ||| (ptr &&& ~~~pacMask)).getLsbD 55 = ptr.getLsbD 55 := by
    rw [merge_getLsbD code ptr (by omega), if_neg (by omega)]
  rw [stripPAC_eq, stripPAC_eq, htop]
  apply BitVec.eq_of_getLsbD_eq
  intro i hi
  cases ptr.getLsbD 55 with
  | true =>
      simp only [if_true]
      rw [BitVec.getLsbD_or, merge_getLsbD _ _ hi, BitVec.getLsbD_or, pacMask_getLsbD hi]
      split_ifs with hin <;> simp [hin]
  | false =>
      simp only [Bool.false_eq_true, if_false, BitVec.getLsbD_and, merge_getLsbD _ _ hi,
        BitVec.getLsbD_not, pacMask_getLsbD hi]
      split_ifs with hin <;> simp [hin]

theorem merge_and_pacMask (code ptr : BitVec 64) :
    ((code &&& pacMask) ||| (ptr &&& ~~~pacMask)) &&& pacMask = code &&& pacMask := by
  apply BitVec.eq_of_getLsbD_eq
  intro i hi
  rw [BitVec.getLsbD_and, BitVec.getLsbD_and, merge_getLsbD _ _ hi, pacMask_getLsbD hi]
  split_ifs with hin <;> simp [hin]

theorem stripPAC_addPAC (ptr context : BitVec 64) (key : PACKey) :
    stripPAC (addPAC ptr context key) = stripPAC ptr := by
  rw [addPAC_eq, stripPAC_merge]

theorem stripPAC_of_half {ptr : BitVec 64} (h : LowHalf ptr ∨ HighHalf ptr) :
    stripPAC ptr = ptr := by
  rw [stripPAC_eq]
  apply BitVec.eq_of_getLsbD_eq
  intro i hi
  rcases h with h | h
  · have hbits := (lowHalf_iff ptr).mp h
    rw [hbits 55 (by omega) (by omega)]
    simp only [Bool.false_eq_true, if_false, BitVec.getLsbD_and, BitVec.getLsbD_not,
      pacMask_getLsbD hi, hi, decide_true, Bool.true_and]
    by_cases hin : 48 ≤ i ∧ i < 55
    · simp [hbits i hin.1 (by omega)]
    · simp [hin]
  · have hbits := (highHalf_iff ptr).mp h
    rw [hbits 55 (by omega) (by omega)]
    simp only [if_true, BitVec.getLsbD_or, pacMask_getLsbD hi]
    by_cases hin : 48 ≤ i ∧ i < 55
    · simp [hbits i hin.1 (by omega)]
    · simp [hin]

/-- The value that stands for a pointer that did not authenticate. -/
def failedPointer (ptr : BitVec 64) (key : PACKey) : BitVec 64 :=
  (stripPAC ptr &&& ~~~(3#64 <<< errorLsb)) ||| 1#64 <<< key.number <<< errorLsb

/--
A signed pointer authenticates, under the same key and context, exactly if it
was properly extended before; it then is the pointer that was signed.
-/
theorem authPAC_addPAC (ptr context : BitVec 64) (key : PACKey) :
    authPAC (addPAC ptr context key) context key =
      if LowHalf ptr ∨ HighHalf ptr then ptr else failedPointer ptr key := by
  rw [authPAC, stripPAC_addPAC, addPAC_eq, merge_and_pacMask]
  by_cases hhalf : LowHalf ptr ∨ HighHalf ptr
  · rw [if_pos hhalf, if_pos hhalf, stripPAC_of_half hhalf]
    simp
  · have hne : computePAC (stripPAC ptr) context key &&& pacMask ≠
        (computePAC (stripPAC ptr) context key ^^^ 1#64 <<< 54) &&& pacMask := by
      intro heq
      have hmask : pacMask.getLsbD 54 = true := by decide
      have hflip : (1#64 <<< 54).getLsbD 54 = true := by decide
      have hbit := congrArg (fun v => v.getLsbD 54) heq
      simp only [BitVec.getLsbD_and, BitVec.getLsbD_xor, hmask, hflip] at hbit
      simp at hbit
    rw [if_neg hhalf, if_neg hhalf, failedPointer]
    simp only [beq_false_of_ne hne, Bool.false_eq_true, if_false]

/-! ## Authenticated branches -/

inductive PacFn where
  | add
  | auth
  deriving DecidableEq, Repr

def PacFn.apply : PacFn → BitVec 64 → BitVec 64 → PACKey → BitVec 64
  | add => addPAC
  | auth => authPAC

/-- A form of `VisitSystem` that calls `PACHelper`: X17 or X30, with a register or zero. -/
structure PacHint where
  form : String
  dst : Fin 32
  src : Option (Fin 32)
  key : PACKey
  pacFn : PacFn

def PacHint.visit (hint : PacHint) (c : Core) : Core :=
  let modifier := match hint.src with
    | none => 0
    | some code => c.registers code
  c.writeRegister hint.dst (hint.pacFn.apply (c.registers hint.dst) modifier hint.key)

/-- A form of `VisitDataProcessing1Source` on a pointer; those with a `z` take a zero modifier. -/
structure PauthForm where
  form : String
  zero : Bool
  key : PACKey
  pacFn : PacFn

def PauthForm.visit (form : PauthForm) (w : Word) (c : Core) : Core :=
  let mod := c.readReg true w.getRn (if form.zero then .zeroRegister else .stackPointer)
  let ptr := c.readReg true w.getRd .zeroRegister
  c.writeReg true w.getRd (form.pacFn.apply ptr mod form.key) .zeroRegister

def pauthForms : List PauthForm :=
  [⟨"paciza_64z_dp_1src", true, PACKeyIA, .add⟩, ⟨"pacia_64p_dp_1src", false, PACKeyIA, .add⟩,
    ⟨"autiza_64z_dp_1src", true, PACKeyIA, .auth⟩, ⟨"autia_64p_dp_1src", false, PACKeyIA, .auth⟩,
    ⟨"pacizb_64z_dp_1src", true, PACKeyIB, .add⟩, ⟨"pacib_64p_dp_1src", false, PACKeyIB, .add⟩,
    ⟨"autizb_64z_dp_1src", true, PACKeyIB, .auth⟩, ⟨"autib_64p_dp_1src", false, PACKeyIB, .auth⟩,
    ⟨"pacdza_64z_dp_1src", true, PACKeyDA, .add⟩, ⟨"pacda_64p_dp_1src", false, PACKeyDA, .add⟩,
    ⟨"autdza_64z_dp_1src", true, PACKeyDA, .auth⟩, ⟨"autda_64p_dp_1src", false, PACKeyDA, .auth⟩,
    ⟨"pacdzb_64z_dp_1src", true, PACKeyDB, .add⟩, ⟨"pacdb_64p_dp_1src", false, PACKeyDB, .add⟩,
    ⟨"autdzb_64z_dp_1src", true, PACKeyDB, .auth⟩, ⟨"autdb_64p_dp_1src", false, PACKeyDB, .auth⟩]

/-! ### Signing and authenticating -/

theorem writeRegister_self (c : Core) (code : Fin 32) :
    c.writeRegister code (c.registers code) = c := by
  have hregisters : (fun i => if i = code then c.registers code else c.registers i) =
      c.registers := by
    funext i
    split_ifs with hi
    · rw [hi]
    · rfl
  rw [Core.writeRegister, hregisters]

theorem writeRegister_writeRegister (c : Core) (code : Fin 32) (v v' : BitVec 64) :
    (c.writeRegister code v).writeRegister code v' = c.writeRegister code v' := by
  simp only [Core.writeRegister]
  congr 1
  funext i
  split_ifs <;> rfl

/-- A signing form and the authenticating form of its key and modifier. -/
structure SigningPair (sign auth : PauthForm) : Prop where
  sign_mem : sign ∈ pauthForms
  auth_mem : auth ∈ pauthForms
  sign_fn : sign.pacFn = .add
  auth_fn : auth.pacFn = .auth
  key : auth.key = sign.key
  zero : auth.zero = sign.zero

/--
Signing a register and authenticating it again leaves the whole state as it was,
if the register held a properly extended pointer; another value ends as a
pointer that fails.  The modifier must not be the register itself.
-/
theorem authenticate_sign {sign auth : PauthForm} (h : SigningPair sign auth) {w w' : Word}
    (hRd : w'.getRd = w.getRd) (hRn : w'.getRn = w.getRn)
    (hreg : sign.zero = true ∧ w.getRn = 31 ∨ w.getRd ≠ w.getRn ∨ w.getRd = 31) (c : Core) :
    auth.visit w' (sign.visit w c) =
      if LowHalf (c.readReg true w.getRd .zeroRegister) ∨
          HighHalf (c.readReg true w.getRd .zeroRegister) then c
      else c.writeReg true w.getRd
        (failedPointer (c.readReg true w.getRd .zeroRegister) sign.key) .zeroRegister := by
  by_cases hrd : w.getRd = 31
  · have hnop (c : Core) (v : BitVec 64) : c.writeReg true w.getRd v .zeroRegister = c := by
      rw [Core.writeReg, if_pos ⟨hrd, rfl⟩]
    simp only [PauthForm.visit, hRd, hnop, ite_self]
  · have hwrite (c : Core) (v : BitVec 64) : c.writeReg true w.getRd v .zeroRegister =
        c.writeRegister w.getRd.toFin v := by
      rw [Core.writeReg, if_neg (fun hzero => hrd hzero.1), sized, if_pos rfl]
    have hread (c : Core) : c.readReg true w.getRd .zeroRegister = c.registers w.getRd.toFin := by
      rw [Core.readReg, if_neg (fun hzero => hrd hzero.1), sized, if_pos rfl]
    -- The modifier register is not written.
    have hmod (mode : Reg31Mode) (hmode : mode = if sign.zero then .zeroRegister else .stackPointer)
        (v : BitVec 64) : (c.writeRegister w.getRd.toFin v).readReg true w.getRn mode =
          c.readReg true w.getRn mode := by
      subst hmode
      rcases hreg with ⟨hzero, hrn⟩ | hne | h31
      · simp [Core.readReg, hzero, hrn]
      · have hfin : w.getRn.toFin ≠ w.getRd.toFin := fun heq =>
          hne (BitVec.toFin_inj.mp heq).symm
        simp [Core.readReg, Core.writeRegister, hfin]
      · exact absurd h31 hrd
    simp only [PauthForm.visit, hRd, hRn, h.sign_fn, h.auth_fn, h.key, h.zero, hwrite, hread,
      PacFn.apply]
    rw [hmod _ rfl, writeRegister_writeRegister]
    have hself (v : BitVec 64) : (c.writeRegister w.getRd.toFin v).registers w.getRd.toFin = v := by
      simp [Core.writeRegister]
    rw [hself, authPAC_addPAC]
    split_ifs with hhalf
    · exact writeRegister_self c _
    · rfl

def pacia : PauthForm := ⟨"pacia_64p_dp_1src", false, PACKeyIA, .add⟩

def autia : PauthForm := ⟨"autia_64p_dp_1src", false, PACKeyIA, .auth⟩

theorem pacia_autia : SigningPair pacia autia :=
  ⟨by simp [pacia, pauthForms], by simp [autia, pauthForms], rfl, rfl, rfl, rfl⟩

/-- A code pointer in X0 and a modifier in X1. -/
def pointerCore : Core :=
  ((default : Core).writeRegister (Core.registerIndex 0) 0x12345678).writeRegister
    (Core.registerIndex 1) 0x7fff0

/-- `PACIA x0, x1` followed by `AUTIA x0, x1`. -/
theorem authenticate_sign_x0 :
    autia.visit 0xdac11020 (pacia.visit 0xdac10020 pointerCore) = pointerCore := by
  have hhalf : LowHalf (pointerCore.readReg true (Word.getRd 0xdac10020) .zeroRegister) ∨
      HighHalf (pointerCore.readReg true (Word.getRd 0xdac10020) .zeroRegister) := by
    decide
  have hsigned : autia.visit 0xdac11020 (pacia.visit 0xdac10020 pointerCore) = _ :=
    authenticate_sign pacia_autia (by decide) (by decide) (.inr (.inl (by decide))) pointerCore
  rwa [if_pos hhalf] at hsigned

/-! ### Signed returns -/

/-- The guarded control stack refuses a return: its top is misaligned or another address. -/
def GcsRefuses (c : Core) (addr : Addr) : Prop :=
  c.gcsEnabled = true ∧ c.gcsPeek ≠ 0 ∧
    (isWordAligned c.gcsPeek = false ∨ addr ≠ 0 ∧ addr ≠ c.gcsPeek)

instance decidableGcsRefuses (c : Core) (addr : Addr) : Decidable (GcsRefuses c addr) :=
  inferInstanceAs (Decidable (_ ∧ _))

end GabyVm.Aarch64
