import GabyVm.Engine.HookWrites
import GabyVm.Engine.Snapshot

/-!
# The typed register surface as a store

Registers are read one at a time or all at once, and written one at a time, all
at once, or as a span.  Whatever the sequence of calls, it is the composition
of its single writes up to the first that is out of range, and every register
then reads the value written to it last.  A BType value is narrowed to a byte
before it is checked.
-/

namespace GabyVm.Engine

open GabyVm.Aarch64
open GabyVm.Foundation

/-! ## Reads -/

inductive ReadAbort where
  | gpRegisterOutOfRange (code : Nat)
  | vRegisterOutOfRange (code : Nat)
  | sysRegisterOutOfRange (code : Nat)
  deriving DecidableEq, Repr

def ReadAbort.message : ReadAbort → String
  | .gpRegisterOutOfRange code =>
      "gaby_vm::Simulator::Read(GpRegister) const: out-of-range underlying value " ++
        toString code
  | .vRegisterOutOfRange code =>
      "gaby_vm::Simulator::Read(VRegister) const: out-of-range underlying value " ++
        toString code
  | .sysRegisterOutOfRange code =>
      "gaby_vm::Simulator::Read(SysRegister) const: out-of-range underlying value " ++
        toString code

namespace Sim

def readGp (s : Sim) (code : BitVec 8) : Except ReadAbort (BitVec 64) :=
  if code ≤ 30 then .ok (s.core.readXRegister (code.setWidth 5))
  else if code = gpSP then .ok s.core.readSp
  else if code = gpPC then .ok s.core.pc
  else .error (.gpRegisterOutOfRange code.toNat)

def readV (s : Sim) (code : BitVec 8) : Except ReadAbort VRegisterValue :=
  if 31 < code then .error (.vRegisterOutOfRange code.toNat)
  else .ok (s.core.vregisters (Core.registerIndex code.toNat)).readQ

def readSys (s : Sim) (code : BitVec 8) : Except ReadAbort (BitVec 32) :=
  if code = sysNZCV then .ok s.readNzcv
  else if code = sysFPCR then .ok s.core.fpcr.value
  else if code = sysFPSR then .ok s.fpsrStorage
  else if code = sysBType then .ok s.core.btype.toBits
  else .error (.sysRegisterOutOfRange code.toNat)

end Sim

/-- The single reads answer the fields of `readAll`, and abort on any other code. -/
structure ReadsFile (s : Sim) : Prop where
  x : ∀ i : Fin 31, s.readGp (BitVec.ofNat 8 i) = .ok (s.readAll.x i)
  sp : s.readGp gpSP = .ok s.readAll.sp
  pc : s.readGp gpPC = .ok s.readAll.pc
  v : ∀ i : Fin 32, s.readV (BitVec.ofNat 8 i) = .ok (s.readAll.v i)
  nzcv : s.readSys sysNZCV = .ok s.readAll.nzcv
  fpcr : s.readSys sysFPCR = .ok s.readAll.fpcr
  fpsr : s.readSys sysFPSR = .ok s.readAll.fpsr
  btype : s.readSys sysBType = .ok s.readAll.btype
  gpAborts : ∀ code, gpPC < code → s.readGp code = .error (.gpRegisterOutOfRange code.toNat)
  vAborts : ∀ code, 31 < code → s.readV code = .error (.vRegisterOutOfRange code.toNat)
  sysAborts : ∀ code, sysBType < code →
    s.readSys code = .error (.sysRegisterOutOfRange code.toNat)

theorem xCode_facts : ∀ i : Fin 31, BitVec.ofNat 8 i ≤ 30 ∧
    ((BitVec.ofNat 8 i).setWidth 5 : BitVec 5) ≠ 31 ∧
    ((BitVec.ofNat 8 i).setWidth 5 : BitVec 5).toFin = i.castSucc := by
  decide

theorem vCode_facts : ∀ i : Fin 32, ¬(31 : BitVec 8) < BitVec.ofNat 8 i ∧
    Core.registerIndex (BitVec.ofNat 8 i).toNat = i := by
  decide

theorem gpCode_above : ∀ code : BitVec 8, gpPC < code →
    ¬code ≤ 30 ∧ code ≠ gpSP ∧ code ≠ gpPC := by
  decide

theorem sysCode_above : ∀ code : BitVec 8, sysBType < code →
    code ≠ sysNZCV ∧ code ≠ sysFPCR ∧ code ≠ sysFPSR ∧ code ≠ sysBType := by
  decide

theorem readsFile (s : Sim) : ReadsFile s where
  x i := by
    obtain ⟨hle, hne, hfin⟩ := xCode_facts i
    rw [Sim.readGp, if_pos hle, Core.readXRegister, if_neg hne, hfin]
    rfl
  sp := rfl
  pc := rfl
  v i := by
    obtain ⟨hle, hfin⟩ := vCode_facts i
    rw [Sim.readV, if_neg hle, hfin]
    rfl
  nzcv := rfl
  fpcr := rfl
  fpsr := rfl
  btype := rfl
  gpAborts code h := by
    obtain ⟨hx, hsp, hpc⟩ := gpCode_above code h
    rw [Sim.readGp, if_neg hx, if_neg hsp, if_neg hpc]
  vAborts code h := by rw [Sim.readV, if_pos h]
  sysAborts code h := by
    obtain ⟨hnzcv, hfpcr, hfpsr, hbtype⟩ := sysCode_above code h
    rw [Sim.readSys, if_neg hnzcv, if_neg hfpcr, if_neg hfpsr, if_neg hbtype]

/-! ## Writes -/

inductive WriteAbort where
  | single (e : Abort)
  | element (index : Nat) (enumName : String) (code : Nat)
  deriving DecidableEq, Repr

def WriteAbort.message : WriteAbort → String
  | .single e => e.message
  | .element index enumName code =>
      "gaby_vm::Simulator::Write(std::span<RegisterWrite>): element " ++ toString index ++
        " carries " ++ enumName ++ " with out-of-range underlying value " ++ toString code

abbrev WriteAct := Action WriteAbort Sim Unit

def Sim.writeOne (r : RegisterWrite) : WriteAct := fun s =>
  match s.write r with
  | .ok s' => .ok () s'
  | .error e => .abort (.single e) s

def Sim.writeEach : List RegisterWrite → WriteAct
  | [] => pure ()
  | r :: ws => do
      Sim.writeOne r
      Sim.writeEach ws

/-- The check that a span makes of an element before it writes it. -/
def elementError (index : Nat) : RegisterWrite → Option WriteAbort
  | .gp code _ => if 32 < code then some (.element index "GpRegister" code.toNat) else none
  | .v code _ => if 31 < code then some (.element index "VRegister" code.toNat) else none
  | .sys code _ => if 3 < code then some (.element index "SysRegister" code.toNat) else none

def Sim.writeSpan (index : Nat) : List RegisterWrite → WriteAct
  | [] => pure ()
  | r :: ws =>
      match elementError index r with
      | some e => Action.abort e
      | none => do
          Sim.writeOne r
          Sim.writeSpan (index + 1) ws

namespace RegisterFile

def xWrites (file : RegisterFile) : List RegisterWrite :=
  List.ofFn fun i : Fin 31 => .gp (BitVec.ofNat 8 i) (file.x i)

def vWrites (file : RegisterFile) : List RegisterWrite :=
  List.ofFn fun i : Fin 32 => .v (BitVec.ofNat 8 i) (file.v i)

theorem writes_eq (file : RegisterFile) :
    file.writes = file.xWrites ++ [.gp gpSP file.sp, .gp gpPC file.pc] ++ file.vWrites ++
      [.sys sysNZCV file.nzcv, .sys sysFPCR file.fpcr, .sys sysFPSR file.fpsr,
        .sys sysBType file.btype] := rfl

end RegisterFile

def Sim.writeAll (file : RegisterFile) : WriteAct := do
  Sim.writeEach file.xWrites
  Sim.writeOne (.gp gpSP file.sp)
  Sim.writeOne (.gp gpPC file.pc)
  Sim.writeEach file.vWrites
  Sim.writeOne (.sys sysNZCV file.nzcv)
  Sim.writeOne (.sys sysFPCR file.fpcr)
  Sim.writeOne (.sys sysFPSR file.fpsr)
  Sim.writeOne (.sys sysBType file.btype)

/-- A call of one of the three write surfaces. -/
inductive WriteCall where
  | one (r : RegisterWrite)
  | all (file : RegisterFile)
  | span (ws : List RegisterWrite)

namespace WriteCall

def run : WriteCall → WriteAct
  | .one r => Sim.writeOne r
  | .all file => Sim.writeAll file
  | .span ws => Sim.writeSpan 0 ws

def writes : WriteCall → List RegisterWrite
  | .one r => [r]
  | .all file => file.writes
  | .span ws => ws

end WriteCall

def runCalls : List WriteCall → WriteAct
  | [] => pure ()
  | call :: calls => do
      call.run
      runCalls calls

def allWrites (calls : List WriteCall) : List RegisterWrite := calls.flatMap WriteCall.writes

/-! ## The surfaces agree -/

theorem writeEach_append (ws ws' : List RegisterWrite) (s : Sim) :
    Sim.writeEach (ws ++ ws') s = (Sim.writeEach ws s).bind fun _ s => Sim.writeEach ws' s := by
  induction ws generalizing s with
  | nil => rfl
  | cons r ws ih =>
      simp only [List.cons_append, Sim.writeEach, Action.bind_apply, Outcome.bind_assoc]
      congr 1
      funext _ s'
      exact ih s'

theorem writeEach_singleton (r : RegisterWrite) (s : Sim) :
    Sim.writeEach [r] s = Sim.writeOne r s :=
  Outcome.bind_ok_unit (Sim.writeOne r s)

theorem writeAll_eq (file : RegisterFile) (s : Sim) :
    Sim.writeAll file s = Sim.writeEach file.writes s := by
  simp only [RegisterFile.writes_eq, writeEach_append, Sim.writeAll, Sim.writeEach,
    Action.bind_apply, Outcome.bind_assoc, Action.pure_apply, Outcome.bind_ok_unit]

theorem writeOne_of_elementError {index : Nat} {r : RegisterWrite} {e : WriteAbort}
    (h : elementError index r = some e) (s : Sim) :
    ∃ e', Sim.writeOne r s = .abort e' s := by
  cases r with
  | gp code value =>
      have habove : gpPC < code := by
        simp only [elementError] at h
        split_ifs at h with hcode
        exact hcode
      obtain ⟨hx, hsp, hpc⟩ := gpCode_above code habove
      have hle : ¬code ≤ gpSP := by
        have hlt := BitVec.lt_def.mp habove
        simp only [gpPC, gpSP, BitVec.le_def, BitVec.ofNat_eq_ofNat, BitVec.toNat_ofNat] at hlt ⊢
        omega
      simp only [Sim.writeOne, Sim.write, Sim.writeGp, if_neg hle, if_neg hpc]
      exact ⟨_, rfl⟩
  | v code value =>
      have habove : 31 < code := by
        simp only [elementError] at h
        split_ifs at h with hcode
        exact hcode
      have hle : ¬code ≤ 31 := by
        have hlt := BitVec.lt_def.mp habove
        rw [BitVec.le_def]
        omega
      simp only [Sim.writeOne, Sim.write, Sim.writeV, if_neg hle]
      exact ⟨_, rfl⟩
  | sys code value =>
      have habove : sysBType < code := by
        simp only [elementError] at h
        split_ifs at h with hcode
        exact hcode
      obtain ⟨hnzcv, hfpcr, hfpsr, hbtype⟩ := sysCode_above code habove
      simp only [Sim.writeOne, Sim.write, Sim.writeSys, if_neg hnzcv, if_neg hfpcr, if_neg hfpsr,
        if_neg hbtype]
      exact ⟨_, rfl⟩

theorem writeSpan_forget (index : Nat) (ws : List RegisterWrite) (s : Sim) :
    (Sim.writeSpan index ws s).forget = (Sim.writeEach ws s).forget := by
  induction ws generalizing index s with
  | nil => rfl
  | cons r ws ih =>
      cases helement : elementError index r with
      | some e =>
          obtain ⟨e', hone⟩ := writeOne_of_elementError helement s
          simp only [Sim.writeSpan, helement, Sim.writeEach, Action.bind_apply, hone]
          rfl
      | none =>
          simp only [Sim.writeSpan, helement, Sim.writeEach, Action.bind_apply, Outcome.forget_bind]
          congr 1
          funext _ s'
          exact ih (index + 1) s'

theorem call_forget (call : WriteCall) (s : Sim) :
    (call.run s).forget = (Sim.writeEach call.writes s).forget := by
  cases call with
  | one r => exact congrArg Outcome.forget (writeEach_singleton r s).symm
  | all file => exact congrArg Outcome.forget (writeAll_eq file s)
  | span ws => exact writeSpan_forget 0 ws s

theorem runCalls_forget (calls : List WriteCall) (s : Sim) :
    (runCalls calls s).forget = (Sim.writeEach (allWrites calls) s).forget := by
  induction calls generalizing s with
  | nil => rfl
  | cons call calls ih =>
      simp only [runCalls, allWrites, List.flatMap_cons, writeEach_append, Action.bind_apply,
        Outcome.forget_bind, call_forget]
      congr 1
      funext _ s'
      exact ih s'

/-! ## What is written reads back -/

def writableFpcr : BitVec 32 := 0x07c00000

def pcValue : RegisterWrite → Option (BitVec 64)
  | .gp code value => if code = gpPC then some value else none
  | _ => none

namespace RegisterWrite

/-- The register code and a BType value, as a 32-bit value, are in their declared ranges. -/
def InRange : RegisterWrite → Prop
  | .gp code _ => code ≤ gpPC
  | .v code _ => code ≤ 31
  | .sys code value => code ≤ sysFPSR ∨ code = sysBType ∧ value ≤ 3

/-- A BType value out of its range whose low byte is in it. -/
def Narrowed : RegisterWrite → Prop
  | .sys code value => code = sysBType ∧ 3 < value ∧ value.setWidth 8 ≤ (3 : BitVec 8)
  | _ => False

instance (r : RegisterWrite) : Decidable r.InRange :=
  match r with
  | .gp code _ => inferInstanceAs (Decidable (code ≤ gpPC))
  | .v code _ => inferInstanceAs (Decidable (code ≤ 31))
  | .sys code value => inferInstanceAs (Decidable (code ≤ sysFPSR ∨ code = sysBType ∧ value ≤ 3))

instance (r : RegisterWrite) : Decidable r.Narrowed :=
  match r with
  | .gp _ _ => inferInstanceAs (Decidable False)
  | .v _ _ => inferInstanceAs (Decidable False)
  | .sys code value => inferInstanceAs (Decidable (code = sysBType ∧ 3 < value ∧
      value.setWidth 8 ≤ (3 : BitVec 8)))

end RegisterWrite

/-- The system registers have the masks of their default values, and keep them. -/
structure Masked (s : Sim) : Prop where
  nzcvMask : s.core.nzcv.writeIgnoreMask = ~~~writableNzcv
  fpcrMask : s.core.fpcr.writeIgnoreMask = ~~~writableFpcr
  fpcrValue : s.core.fpcr.value &&& ~~~writableFpcr = 0

/--
In `s'`, after the writes made in `s`, each register reads the value written to
it last, and one that was not written reads what it read in `s`.
-/
structure ReadsLast (ws : List RegisterWrite) (s s' : Sim) : Prop where
  x : ∀ i, s'.readAll.x i = (lastTo (gpValue i.castSucc) ws).getD (s.readAll.x i)
  sp : s'.readAll.sp = (lastTo (gpValue 31) ws).getD s.readAll.sp
  pc : s'.readAll.pc = ((lastTo pcValue ws).map addressUntag).getD s.readAll.pc
  v : ∀ i, s'.readAll.v i = (lastTo (vValue i) ws).getD (s.readAll.v i)
  nzcv : s'.readAll.nzcv =
    ((lastTo (sysValue sysNZCV) ws).map (· &&& writableNzcv)).getD s.readAll.nzcv
  fpcr : s'.readAll.fpcr =
    ((lastTo (sysValue sysFPCR) ws).map (· &&& writableFpcr)).getD s.readAll.fpcr
  fpsr : s'.readAll.fpsr = (lastTo (sysValue sysFPSR) ws).getD s.readAll.fpsr
  btype : s'.readAll.btype = (lastTo (sysValue sysBType) ws).getD s.readAll.btype

theorem readsLast_nil (s : Sim) : ReadsLast [] s s :=
  ⟨fun _ => rfl, rfl, rfl, fun _ => rfl, rfl, rfl, rfl, rfl⟩

theorem ReadsLast.append {ws : List RegisterWrite} {r : RegisterWrite} {s s' t : Sim}
    (h : ReadsLast ws s s') (h' : ReadsLast [r] s' t) :
    ReadsLast (ws ++ [r]) s t where
  x i := by rw [lastTo_append, Option.getD_or, ← h.x i, h'.x i, lastTo_singleton]
  sp := by rw [lastTo_append, Option.getD_or, ← h.sp, h'.sp, lastTo_singleton]
  pc := by rw [lastTo_append, Option.map_or, Option.getD_or, ← h.pc, h'.pc, lastTo_singleton]
  v i := by rw [lastTo_append, Option.getD_or, ← h.v i, h'.v i, lastTo_singleton]
  nzcv := by
    rw [lastTo_append, Option.map_or, Option.getD_or, ← h.nzcv, h'.nzcv, lastTo_singleton]
  fpcr := by
    rw [lastTo_append, Option.map_or, Option.getD_or, ← h.fpcr, h'.fpcr, lastTo_singleton]
  fpsr := by rw [lastTo_append, Option.getD_or, ← h.fpsr, h'.fpsr, lastTo_singleton]
  btype := by rw [lastTo_append, Option.getD_or, ← h.btype, h'.btype, lastTo_singleton]

theorem setRawValue_and (r : SimSystemRegister) (value writable : BitVec 32)
    (hmask : r.writeIgnoreMask = ~~~writable) :
    (r.setRawValue value).value &&& writable = value &&& writable := by
  ext i hi
  simp only [SimSystemRegister.setRawValue, hmask]
  cases hbit : writable[i] <;> simp [hbit]

theorem setRawValue_eq (r : SimSystemRegister) (value writable : BitVec 32)
    (hmask : r.writeIgnoreMask = ~~~writable) (hvalue : r.value &&& ~~~writable = 0) :
    (r.setRawValue value).value = value &&& writable := by
  rw [SimSystemRegister.setRawValue, hmask, hvalue, BitVec.not_not]
  exact BitVec.zero_or

theorem btypeOfBits_le {value : BitVec 32} (h : value ≤ 3) :
    ∃ b, btypeOfBits (value.setWidth 8) = some b ∧ b.toBits = value := by
  have hcases : value = 0 ∨ value = 1 ∨ value = 2 ∨ value = 3 := by
    rw [BitVec.le_def] at h
    simp only [← BitVec.toNat_inj, BitVec.ofNat_eq_ofNat, BitVec.toNat_ofNat] at h ⊢
    omega
  rcases hcases with rfl | rfl | rfl | rfl
  · exact ⟨.default, rfl, rfl⟩
  · exact ⟨.branchFromUnguardedOrToIP, rfl, rfl⟩
  · exact ⟨.branchAndLink, rfl, rfl⟩
  · exact ⟨.branchFromGuardedNotToIP, rfl, rfl⟩

theorem allowed_of_inRange {r : RegisterWrite} (h : r.InRange) (hpc : pcValue r = none) :
    r.Allowed := by
  cases r with
  | gp code value =>
      have hne : code ≠ gpPC := by
        rintro rfl
        cases hpc
      have hle : code ≤ gpPC := h
      have hnat : code.toNat ≠ 32 := fun heq => hne (BitVec.eq_of_toNat_eq heq)
      change code ≤ gpSP
      simp only [gpPC, gpSP, BitVec.le_def, BitVec.ofNat_eq_ofNat, BitVec.toNat_ofNat] at hle ⊢
      omega
  | v code value => exact h
  | sys code value =>
      rcases h with hcode | ⟨hcode, hvalue⟩
      · exact .inl hcode
      · obtain ⟨b, hb, -⟩ := btypeOfBits_le hvalue
        exact .inr ⟨hcode, by rw [hb]; rfl⟩

theorem write_btype {s t : Sim} {r : RegisterWrite} (h : s.write r = .ok t) :
    t.core.btype =
      ((sysValue sysBType r).bind fun value => btypeOfBits (value.setWidth 8)).getD
        s.core.btype := by
  cases r with
  | gp code value =>
      simp only [Sim.write, Sim.writeGp] at h
      split_ifs at h <;>
        · cases h
          rfl
  | v code value =>
      simp only [Sim.write, Sim.writeV] at h
      split_ifs at h
      cases h
      rfl
  | sys code value =>
      simp only [Sim.write, Sim.writeSys] at h
      split_ifs at h with hnzcv hfpcr hfpsr hbtype
      · cases h
        rw [hnzcv]
        rfl
      · cases h
        rw [hfpcr]
        rfl
      · cases h
        rw [hfpsr]
        rfl
      · split at h
        · rename_i b hb
          cases h
          simp only [sysValue, hbtype, if_true, Option.bind_some, hb, Option.getD_some]
          rfl
        · cases h

theorem Masked.setRawValue {s t : Sim} (hs : Masked s) {nzcv fpcr : Option (BitVec 32)}
    (hnzcv : t.core.nzcv = (nzcv.map s.core.nzcv.setRawValue).getD s.core.nzcv)
    (hfpcr : t.core.fpcr = (fpcr.map s.core.fpcr.setRawValue).getD s.core.fpcr) :
    Masked t where
  nzcvMask := by
    rw [hnzcv]
    cases nzcv <;> exact hs.nzcvMask
  fpcrMask := by
    rw [hfpcr]
    cases fpcr <;> exact hs.fpcrMask
  fpcrValue := by
    rw [hfpcr]
    cases fpcr with
    | none => exact hs.fpcrValue
    | some value =>
        have hkept := setRawValue_and_mask s.core.fpcr value (by rw [hs.fpcrMask, hs.fpcrValue])
        rwa [hs.fpcrMask] at hkept

theorem eq_sys_of_sysValue {code : BitVec 8} {value : BitVec 32} {r : RegisterWrite}
    (h : sysValue code r = some value) :
    r = .sys code value := by
  cases r with
  | gp code' value' => cases h
  | v code' value' => cases h
  | sys code' value' =>
      simp only [sysValue] at h
      split_ifs at h with hcode
      cases h
      rw [hcode]

theorem eq_gp_of_pcValue {value : BitVec 64} {r : RegisterWrite} (h : pcValue r = some value) :
    r = .gp gpPC value := by
  cases r with
  | gp code' value' =>
      simp only [pcValue] at h
      split_ifs at h with hcode
      cases h
      rw [hcode]
  | v code' value' => cases h
  | sys code' value' => cases h

theorem write_readsLast {s : Sim} (hs : Masked s) {r : RegisterWrite} (hr : r.InRange) :
    ∃ t, s.write r = .ok t ∧ Masked t ∧ ReadsLast [r] s t := by
  by_cases hpc : pcValue r = none
  · obtain ⟨t, ht, hwrote⟩ := write_wrote s (allowed_of_inRange hr hpc)
    refine ⟨t, ht, hs.setRawValue hwrote.nzcv hwrote.fpcr, ?_⟩
    refine ⟨fun i => hwrote.gp i.castSucc, hwrote.gp 31, ?_, hwrote.v, ?_, ?_, hwrote.fpsr, ?_⟩
    · obtain ⟨_, _, _, _, _, _, _, rfl⟩ := hwrote.frame
      rw [lastTo_singleton, hpc]
      rfl
    · have hbefore : s.readAll.nzcv = s.core.nzcv.value &&& writableNzcv := readNzcv_eq s
      have hafter : t.readAll.nzcv = t.core.nzcv.value &&& writableNzcv := readNzcv_eq t
      rw [hbefore, hafter, hwrote.nzcv]
      cases lastTo (sysValue sysNZCV) [r] with
      | none => rfl
      | some value => exact setRawValue_and _ value _ hs.nzcvMask
    · change t.core.fpcr.value = _
      rw [hwrote.fpcr]
      cases lastTo (sysValue sysFPCR) [r] with
      | none => rfl
      | some value => exact setRawValue_eq _ value _ hs.fpcrMask hs.fpcrValue
    · change t.core.btype.toBits = _
      rw [write_btype ht, lastTo_singleton]
      cases hlast : sysValue sysBType r with
      | none => rfl
      | some value =>
          obtain rfl := eq_sys_of_sysValue hlast
          have hvalue : value ≤ 3 := by
            rcases hr with hle | ⟨-, hle⟩
            · exact absurd hle (by decide)
            · exact hle
          obtain ⟨b, hb, hbits⟩ := btypeOfBits_le hvalue
          rw [Option.bind_some, hb]
          exact hbits
  · obtain ⟨value, hvalue⟩ := Option.ne_none_iff_exists'.mp hpc
    obtain rfl := eq_gp_of_pcValue hvalue
    refine ⟨s.setCore (s.core.writePc value), rfl, ⟨hs.nzcvMask, hs.fpcrMask, hs.fpcrValue⟩, ?_⟩
    have hother (i : Fin 32) : lastTo (gpValue i) [.gp gpPC value] = none := by
      have hne : ¬gpPC.toNat = i := by
        change ¬32 = i.val
        omega
      simp only [lastTo_singleton, gpValue, if_neg hne]
    refine ⟨fun i => ?_, ?_, rfl, fun _ => rfl, rfl, rfl, rfl, rfl⟩
    · rw [hother]
      rfl
    · rw [hother]
      rfl

theorem writeEach_readsLast {s : Sim} (hs : Masked s) {ws : List RegisterWrite}
    (hws : ∀ r ∈ ws, r.InRange) :
    ∃ s', Sim.writeEach ws s = .ok () s' ∧ Masked s' ∧ ReadsLast ws s s' := by
  induction ws using List.reverseRecOn with
  | nil => exact ⟨s, rfl, hs, readsLast_nil s⟩
  | append_singleton ws r ih =>
      obtain ⟨s', hs', hmasked, hlast⟩ := ih fun q hq => hws q (List.mem_append_left _ hq)
      obtain ⟨t, ht, hmasked', hone⟩ := write_readsLast hmasked (hws r (by simp))
      refine ⟨t, ?_, hmasked', hlast.append hone⟩
      rw [writeEach_append, hs', Outcome.bind_ok, writeEach_singleton, Sim.writeOne, ht]

/-! ## Writing back what was read -/

theorem lastTo_eq_some {α : Type} {value? : RegisterWrite → Option α} {ws : List RegisterWrite}
    {a : α} {r : RegisterWrite} (hr : r ∈ ws) (hvalue : value? r = some a)
    (huniq : ∀ q ∈ ws, ∀ b, value? q = some b → b = a) :
    lastTo value? ws = some a := by
  cases h : lastTo value? ws with
  | none =>
      have hnone := List.findSome?_eq_none_iff.mp h r (List.mem_reverse.mpr hr)
      rw [hvalue] at hnone
      cases hnone
  | some b =>
      obtain ⟨q, hq, hb⟩ := List.exists_of_findSome?_eq_some h
      rw [huniq q (List.mem_reverse.mp hq) b hb]

namespace RegisterFile

/-- The writes that put the values of a file back. -/
inductive Restores (file : RegisterFile) : RegisterWrite → Prop where
  | x (i : Fin 31) : Restores file (.gp (BitVec.ofNat 8 i.val) (file.x i))
  | sp : Restores file (.gp gpSP file.sp)
  | pc : Restores file (.gp gpPC file.pc)
  | v (i : Fin 32) : Restores file (.v (BitVec.ofNat 8 i.val) (file.v i))
  | nzcv : Restores file (.sys sysNZCV file.nzcv)
  | fpcr : Restores file (.sys sysFPCR file.fpcr)
  | fpsr : Restores file (.sys sysFPSR file.fpsr)
  | btype : Restores file (.sys sysBType file.btype)

theorem mem_writes {file : RegisterFile} {r : RegisterWrite} :
    r ∈ file.writes ↔ file.Restores r := by
  simp only [writes, List.mem_append, List.mem_ofFn, List.mem_cons, List.not_mem_nil, or_false]
  constructor
  · rintro (((⟨i, rfl⟩ | rfl | rfl) | ⟨i, rfl⟩) | rfl | rfl | rfl | rfl)
    · exact .x i
    · exact .sp
    · exact .pc
    · exact .v i
    · exact .nzcv
    · exact .fpcr
    · exact .fpsr
    · exact .btype
  · intro h
    cases h with
    | x i => exact .inl (.inl (.inl ⟨i, rfl⟩))
    | sp => exact .inl (.inl (.inr (.inl rfl)))
    | pc => exact .inl (.inl (.inr (.inr rfl)))
    | v i => exact .inl (.inr ⟨i, rfl⟩)
    | nzcv => exact .inr (.inl rfl)
    | fpcr => exact .inr (.inr (.inl rfl))
    | fpsr => exact .inr (.inr (.inr (.inl rfl)))
    | btype => exact .inr (.inr (.inr (.inr rfl)))

theorem writes_inRange {file : RegisterFile} (hbtype : file.btype ≤ 3) :
    ∀ r ∈ file.writes, r.InRange := by
  intro r hr
  cases mem_writes.mp hr with
  | x i =>
      have hle : ∀ i : Fin 31, BitVec.ofNat 8 i.val ≤ gpPC := by decide
      exact hle i
  | sp => exact (by decide : gpSP ≤ gpPC)
  | pc => exact (by decide : gpPC ≤ gpPC)
  | v i =>
      have hle : ∀ i : Fin 32, BitVec.ofNat 8 i.val ≤ 31 := by decide
      exact hle i
  | nzcv => exact .inl (by decide)
  | fpcr => exact .inl (by decide)
  | fpsr => exact .inl (by decide)
  | btype => exact .inr ⟨rfl, hbtype⟩

theorem ofNat_toNat {n : Nat} (h : n < 33) : (BitVec.ofNat 8 n).toNat = n :=
  Nat.mod_eq_of_lt (by omega)

theorem last_x (file : RegisterFile) (i : Fin 31) :
    lastTo (gpValue i.castSucc) file.writes = some (file.x i) := by
  refine lastTo_eq_some (mem_writes.mpr (.x i)) ?_ ?_
  · simp only [gpValue, ofNat_toNat (show i.val < 33 by omega), Fin.val_castSucc, if_true]
  · intro q hq b hb
    cases mem_writes.mp hq with
    | x j =>
        simp only [gpValue, ofNat_toNat (show j.val < 33 by omega), Fin.val_castSucc] at hb
        split_ifs at hb with hij
        cases hb
        rw [Fin.ext hij]
    | sp =>
        have hne : ¬gpSP.toNat = i.castSucc.val := by
          change ¬31 = i.val
          omega
        simp only [gpValue, if_neg hne] at hb
        cases hb
    | pc =>
        have hne : ¬gpPC.toNat = i.castSucc.val := by
          change ¬32 = i.val
          omega
        simp only [gpValue, if_neg hne] at hb
        cases hb
    | _ => cases hb

theorem last_sp (file : RegisterFile) : lastTo (gpValue 31) file.writes = some file.sp := by
  refine lastTo_eq_some (mem_writes.mpr .sp) rfl ?_
  intro q hq b hb
  cases mem_writes.mp hq with
  | x j =>
      have hne : ¬j.val = 31 := by omega
      simp only [gpValue, ofNat_toNat (show j.val < 33 by omega)] at hb
      split_ifs at hb with hj
      exact absurd hj hne
  | sp =>
      cases hb
      rfl
  | _ => cases hb

theorem last_pc (file : RegisterFile) : lastTo pcValue file.writes = some file.pc := by
  refine lastTo_eq_some (mem_writes.mpr .pc) rfl ?_
  intro q hq b hb
  obtain rfl := eq_gp_of_pcValue hb
  generalize hr : RegisterWrite.gp gpPC b = r at hq
  cases mem_writes.mp hq with
  | x j =>
      have hne : ∀ j : Fin 31, gpPC ≠ BitVec.ofNat 8 j.val := by decide
      injection hr with hcode
      exact absurd hcode (hne j)
  | sp =>
      injection hr with hcode
      exact absurd hcode (by decide)
  | pc =>
      injection hr
  | _ => cases hr

theorem last_v (file : RegisterFile) (i : Fin 32) :
    lastTo (vValue i) file.writes = some (file.v i) := by
  refine lastTo_eq_some (mem_writes.mpr (.v i)) ?_ ?_
  · simp only [vValue, ofNat_toNat (show i.val < 33 by omega), if_true]
  · intro q hq b hb
    cases mem_writes.mp hq with
    | v j =>
        simp only [vValue, ofNat_toNat (show j.val < 33 by omega)] at hb
        split_ifs at hb with hij
        cases hb
        rw [Fin.ext hij]
    | _ => cases hb

theorem last_sys {file : RegisterFile} {code : BitVec 8} {value : BitVec 32}
    (hmem : file.Restores (.sys code value)) :
    lastTo (sysValue code) file.writes = some value := by
  refine lastTo_eq_some (mem_writes.mpr hmem) ?_ ?_
  · simp only [sysValue, if_true]
  · intro q hq b hb
    obtain rfl := eq_sys_of_sysValue hb
    generalize hr : RegisterWrite.sys code b = r at hq
    generalize hr' : RegisterWrite.sys code value = r' at hmem
    cases mem_writes.mp hq <;> cases hmem <;> cases hr <;> cases hr' <;> rfl

end RegisterFile

theorem toBits_le (b : BType) : b.toBits ≤ 3 := by
  cases b <;> decide

theorem and_writable {value writable : BitVec 32} (h : value &&& ~~~writable = 0) :
    value &&& writable = value := by
  ext i hi
  have hbit := congrArg (fun b : BitVec 32 => b[i]) h
  simp only [BitVec.getElem_and, BitVec.getElem_not, BitVec.ofNat_eq_ofNat,
    BitVec.getElem_zero] at hbit ⊢
  cases hvalue : value[i] with
  | false => rfl
  | true =>
      rw [hvalue] at hbit
      simpa using hbit

/-- `WriteAll` of what `ReadAll` answered: the program counter loses its top byte. -/
theorem writeAll_readAll {s : Sim} (hs : Masked s) :
    ∃ s', Sim.writeAll s.readAll s = .ok () s' ∧
      s'.readAll = { s.readAll with pc := addressUntag s.readAll.pc } := by
  have hnzcv : s.readAll.nzcv &&& writableNzcv = s.readAll.nzcv := by
    change s.readNzcv &&& writableNzcv = s.readNzcv
    rw [readNzcv_eq, BitVec.and_assoc, BitVec.and_self]
  have hfpcr : s.readAll.fpcr &&& writableFpcr = s.readAll.fpcr := and_writable hs.fpcrValue
  have hbtype : s.readAll.btype ≤ 3 := toBits_le _
  obtain ⟨s', hwrite, -, hlast⟩ := writeEach_readsLast hs (RegisterFile.writes_inRange hbtype)
  refine ⟨s', by rw [writeAll_eq, hwrite], ?_⟩
  have hx (i : Fin 31) : s'.readAll.x i = s.readAll.x i := by
    rw [hlast.x, RegisterFile.last_x, Option.getD_some]
  have hv (i : Fin 32) : s'.readAll.v i = s.readAll.v i := by
    rw [hlast.v, RegisterFile.last_v, Option.getD_some]
  have hsp := hlast.sp
  have hpc := hlast.pc
  have hnzcv' := hlast.nzcv
  have hfpcr' := hlast.fpcr
  have hfpsr := hlast.fpsr
  have hbtype := hlast.btype
  rw [RegisterFile.last_sp, Option.getD_some] at hsp
  rw [RegisterFile.last_pc, Option.map_some, Option.getD_some] at hpc
  rw [RegisterFile.last_sys .nzcv, Option.map_some, Option.getD_some, hnzcv] at hnzcv'
  rw [RegisterFile.last_sys .fpcr, Option.map_some, Option.getD_some, hfpcr] at hfpcr'
  rw [RegisterFile.last_sys .fpsr, Option.getD_some] at hfpsr
  rw [RegisterFile.last_sys .btype, Option.getD_some] at hbtype
  generalize s'.readAll = file' at *
  obtain ⟨x', sp', pc', v', nzcv', fpcr', fpsr', btype'⟩ := file'
  obtain rfl : x' = s.readAll.x := funext hx
  obtain rfl : v' = s.readAll.v := funext hv
  simp only at hsp hpc hnzcv' hfpcr' hfpsr hbtype
  rw [hsp, hpc, hnzcv', hfpcr', hfpsr, hbtype]

/-! ## The store -/

/-- What the embedder relies on in a sequence of calls made in `s`. -/
structure LawfulStore (calls : List WriteCall) (s : Sim) : Prop where
  /-- Every surface is the composition of its single writes. -/
  composes : (runCalls calls s).forget = (Sim.writeEach (allWrites calls) s).forget
  readsLast : (∀ r ∈ allWrites calls, r.InRange) →
    ∃ s', runCalls calls s = .ok () s' ∧ ReadsFile s' ∧ ReadsLast (allWrites calls) s s'
  /-- The first write out of its range aborts, with the ones before it applied. -/
  aborts : ∀ before r rest, allWrites calls = before ++ r :: rest →
    (∀ q ∈ before, q.InRange) → ¬r.InRange →
      ∃ s', Sim.writeEach before s = .ok () s' ∧ ReadsLast before s s' ∧
        (∃ e, Sim.writeOne r s' = .abort e s') ∧ ∃ e, runCalls calls s = .abort e s'
  restores : ∃ s', Sim.writeAll s.readAll s = .ok () s' ∧
    s'.readAll = { s.readAll with pc := addressUntag s.readAll.pc }

/-- The first write that is out of its range, if there is one. -/
def firstOutOfRange (ws : List RegisterWrite) : Option RegisterWrite :=
  ws.find? fun r => !decide r.InRange

theorem btypeOfBits_none {value : BitVec 32} (h : ¬value.setWidth 8 ≤ (3 : BitVec 8)) :
    btypeOfBits (value.setWidth 8) = none := by
  have hlt : 3 < (value.setWidth 8).toNat := by
    rw [BitVec.le_def] at h
    exact Nat.lt_of_not_le h
  generalize (value.setWidth 8) = b at hlt
  unfold btypeOfBits
  split <;> first | rfl | omega

theorem sysCode_notBtype : ∀ code : BitVec 8, ¬code ≤ sysFPSR →
    code ≠ sysNZCV ∧ code ≠ sysFPCR ∧ code ≠ sysFPSR := by
  decide

theorem writeOne_outOfRange {r : RegisterWrite} (hr : ¬r.InRange) (hn : ¬r.Narrowed) (s : Sim) :
    ∃ e, Sim.writeOne r s = .abort e s := by
  cases r with
  | gp code value =>
      have habove : gpPC < code := BitVec.not_le.mp hr
      exact writeOne_of_elementError (show elementError 0 (.gp code value) = _ from if_pos habove) s
  | v code value =>
      have habove : 31 < code := BitVec.not_le.mp hr
      exact writeOne_of_elementError (show elementError 0 (.v code value) = _ from if_pos habove) s
  | sys code value =>
      have hcode : ¬code ≤ sysFPSR := fun hle => hr (.inl hle)
      obtain ⟨hnzcv, hfpcr, hfpsr⟩ := sysCode_notBtype code hcode
      simp only [Sim.writeOne, Sim.write, Sim.writeSys, if_neg hnzcv, if_neg hfpcr, if_neg hfpsr]
      by_cases hbtype : code = sysBType
      · have hvalue : 3 < value := BitVec.not_le.mp fun hle => hr (.inr ⟨hbtype, hle⟩)
        have hbits := btypeOfBits_none fun hle => hn ⟨hbtype, hvalue, hle⟩
        rw [if_pos hbtype, hbits]
        exact ⟨_, rfl⟩
      · rw [if_neg hbtype]
        exact ⟨_, rfl⟩

theorem writeOne_narrowed {r : RegisterWrite} (hn : r.Narrowed) (s : Sim) :
    ¬r.InRange ∧ ∃ s', Sim.writeOne r s = .ok () s' := by
  cases r with
  | gp code value => cases hn
  | v code value => cases hn
  | sys code value =>
      obtain ⟨rfl, hvalue, hlow⟩ := hn
      refine ⟨?_, ?_⟩
      · rintro (hle | ⟨-, hle⟩)
        · exact absurd hle (by decide)
        · exact absurd hle (BitVec.not_le.mpr hvalue)
      · have hwide : (value.setWidth 8).setWidth 32 ≤ (3 : BitVec 32) := by
          simp only [BitVec.le_def, BitVec.toNat_setWidth] at hlow ⊢
          exact Nat.le_trans (Nat.mod_le _ _) hlow
        obtain ⟨b, hb, -⟩ := btypeOfBits_le hwide
        have hsame : ((value.setWidth 8).setWidth 32).setWidth 8 = value.setWidth 8 := by simp
        rw [hsame] at hb
        exact ⟨s.setCore (s.core.writeNextBType b).updateBType,
          by simp [Sim.writeOne, Sim.write, Sim.writeSys, sysBType, sysNZCV, sysFPCR, sysFPSR, hb]⟩

theorem firstOutOfRange_append {before rest : List RegisterWrite} {r : RegisterWrite}
    (hbefore : ∀ q ∈ before, q.InRange) (hr : ¬r.InRange) :
    firstOutOfRange (before ++ r :: rest) = some r := by
  rw [firstOutOfRange, List.find?_append, List.find?_eq_none.mpr]
  · simp [hr]
  · intro q hq
    simpa using hbefore q hq

theorem runCalls_aborts_iff {calls : List WriteCall} {s s' : Sim} :
    (∃ e, runCalls calls s = .abort e s') ↔
      ∃ e, Sim.writeEach (allWrites calls) s = .abort e s' := by
  rw [← Outcome.forget_eq_abort, ← Outcome.forget_eq_abort, runCalls_forget]

/--
The typed registers are a lawful store exactly when the first write that is out
of its range is not a BType value with a low byte of 0 to 3.
-/
theorem lawfulStore_iff (calls : List WriteCall) {s : Sim} (hs : Masked s) :
    LawfulStore calls s ↔
      ∀ r, firstOutOfRange (allWrites calls) = some r → ¬r.Narrowed := by
  constructor
  · intro hlawful r hfirst hnarrowed
    obtain ⟨hout, before, rest, hsplit, hbefore⟩ := List.find?_eq_some_iff_append.mp hfirst
    have hinRange : ∀ q ∈ before, q.InRange := by
      intro q hq
      simpa using hbefore q hq
    obtain ⟨s', -, -, ⟨e, habort⟩, -⟩ := hlawful.aborts before r rest hsplit hinRange
      (writeOne_narrowed hnarrowed s).1
    obtain ⟨-, t, hwrites⟩ := writeOne_narrowed hnarrowed s'
    rw [hwrites] at habort
    cases habort
  · intro hfirst
    refine ⟨runCalls_forget calls s, ?_, ?_, writeAll_readAll hs⟩
    · intro hall
      obtain ⟨s', hwrite, -, hlast⟩ := writeEach_readsLast hs hall
      refine ⟨s', ?_, readsFile s', hlast⟩
      rw [← Outcome.forget_eq_ok, runCalls_forget, hwrite]
      rfl
    · intro before r rest hsplit hbefore hr
      obtain ⟨s', hwrite, -, hlast⟩ := writeEach_readsLast hs hbefore
      have hnarrowed := hfirst r (by rw [hsplit, firstOutOfRange_append hbefore hr])
      obtain ⟨e, habort⟩ := writeOne_outOfRange hr hnarrowed s'
      refine ⟨s', hwrite, hlast, ⟨e, habort⟩, runCalls_aborts_iff.mpr ⟨e, ?_⟩⟩
      rw [hsplit, writeEach_append, hwrite, Outcome.bind_ok, Sim.writeEach, Action.bind_apply,
        habort, Outcome.bind_abort]

/-! ## A span on a simulator as constructed -/

theorem construct_masked (mem : Memory) (stackTop : Addr) :
    Masked (Sim.construct mem stackTop) where
  nzcvMask := rfl
  fpcrMask := rfl
  fpcrValue := by
    change (0 : BitVec 32) &&& ~~~writableFpcr = 0
    decide

/-- LR under its two names, a bulk write in between, and a code out of range. -/
def mixedCalls (file : RegisterFile) : List WriteCall :=
  [.one (.gp 30 1), .all file, .span [.v 31 ⟨2, 3⟩, .gp 33 4, .sys sysBType 256]]

theorem lawfulStore_iff_mixed :
    LawfulStore (mixedCalls (Sim.construct (fun _ => 0) 0).readAll)
      (Sim.construct (fun _ => 0) 0) := by
  rw [lawfulStore_iff _ (construct_masked _ _)]
  intro r hfirst
  have hcode : firstOutOfRange (allWrites (mixedCalls
      (Sim.construct (fun _ => 0) 0).readAll)) = some (.gp 33 4) := by decide +kernel
  rw [hcode] at hfirst
  cases hfirst
  decide

/-- 256 is narrowed to 0, which is a branch type. -/
theorem narrowedBtype_written :
    ¬∀ (calls : List WriteCall) (s : Sim), Masked s → LawfulStore calls s := by
  intro h
  have hlawful := h [.one (.sys sysBType 256)] _ (construct_masked (fun _ => 0) 0)
  obtain ⟨s', -, -, ⟨e, habort⟩, -⟩ := hlawful.aborts [] (.sys sysBType 256) [] rfl (by simp)
    (by decide)
  obtain ⟨-, t, hwrites⟩ := writeOne_narrowed (r := .sys sysBType 256) (by decide) s'
  rw [hwrites] at habort
  cases habort

end GabyVm.Engine
