import GabyVm.Engine.HookAnswer

/-!
# Register writes of the hook

The hook runs after the branch has staged its branch type and before the
program counter is committed.  A typed write of any register but the branch
type is still there when the step ends.  A write of the branch type is promoted
at once and clears the staged one, so that the step ends with the default type,
whatever was written.
-/

namespace GabyVm.Engine

open GabyVm.Aarch64
open GabyVm.Cache
open GabyVm.Foundation

variable {τ : Type}

/-! ## Sequences of writes -/

/-- A register that the callback contract lets be written, with a value it takes. -/
def RegisterWrite.Allowed : RegisterWrite → Prop
  | .gp code _ => code ≤ gpSP
  | .v code _ => code ≤ 31
  | .sys code value => code ≤ sysFPSR ∨
      code = sysBType ∧ (btypeOfBits (value.setWidth 8)).isSome = true

instance (r : RegisterWrite) : Decidable r.Allowed :=
  match r with
  | .gp code _ => inferInstanceAs (Decidable (code ≤ gpSP))
  | .v code _ => inferInstanceAs (Decidable (code ≤ 31))
  | .sys code value => inferInstanceAs (Decidable (code ≤ sysFPSR ∨
      code = sysBType ∧ (btypeOfBits (value.setWidth 8)).isSome = true))

def HostProg.writes {α : Type} : List RegisterWrite → HostProg τ α → HostProg τ α
  | [], p => p
  | r :: ws, p => .write r (HostProg.writes ws p)

def Sim.writes (s : Sim) (ws : List RegisterWrite) : Except Abort Sim := ws.foldlM Sim.write s

theorem Sim.writes_append {s s' : Sim} {ws : List RegisterWrite} {r : RegisterWrite}
    (h : s.writes ws = .ok s') :
    s.writes (ws ++ [r]) = s'.write r := by
  rw [writes, List.foldlM_append, show ws.foldlM Sim.write s = .ok s' from h]
  exact bind_pure (s'.write r)

theorem HostProg.run_writes {α : Type} {E : Env} {nested : ExecCall → Act τ Bool}
    {ws : List RegisterWrite} {p : HostProg τ α} {w : World τ} {s : Sim}
    (h : w.sim.writes ws = .ok s) :
    (HostProg.writes ws p).run E nested w = p.run E nested { w with sim := s } := by
  induction ws generalizing w with
  | nil =>
      cases h
      rfl
  | cons r ws ih =>
      rw [Sim.writes, List.foldlM_cons] at h
      cases hwrite : w.sim.write r with
      | error e =>
          rw [hwrite] at h
          cases h
      | ok s' =>
          rw [hwrite] at h
          have hrest := ih (w := { w with sim := s' }) h
          simp only [HostProg.writes, HostProg.run, writeRegister, hwrite, Outcome.bind_ok]
          exact hrest

/-- The value that was written last among those that `value?` picks out. -/
def lastTo {α : Type} (value? : RegisterWrite → Option α) (ws : List RegisterWrite) : Option α :=
  ws.reverse.findSome? value?

theorem lastTo_append {α : Type} (value? : RegisterWrite → Option α)
    (ws : List RegisterWrite) (r : RegisterWrite) :
    lastTo value? (ws ++ [r]) = (value? r).or (lastTo value? ws) := by
  simp only [lastTo, List.reverse_append, List.reverse_singleton, List.singleton_append,
    List.findSome?_cons]
  cases value? r <;> rfl

@[simp] theorem lastTo_singleton {α : Type} (value? : RegisterWrite → Option α)
    (r : RegisterWrite) :
    lastTo value? [r] = value? r := by
  simp only [lastTo, List.reverse_singleton, List.findSome?_cons, List.findSome?_nil]
  cases value? r <;> rfl

def gpValue (i : Fin 32) : RegisterWrite → Option (BitVec 64)
  | .gp code value => if code.toNat = i then some value else none
  | _ => none

def vValue (i : Fin 32) : RegisterWrite → Option VRegisterValue
  | .v code value => if code.toNat = i then some value else none
  | _ => none

def sysValue (code : BitVec 8) : RegisterWrite → Option (BitVec 32)
  | .sys code' value => if code' = code then some value else none
  | _ => none

/-! ## What the writes do to a simulator -/

theorem writeQ_getLsbD (r : SimVRegister) (q : VRegisterValue) {i : Nat} (hi : i < 128) :
    (r.writeQ q).value.getLsbD i = (q.hi ++ q.lo).getLsbD i := by
  have hlt : i < 2048 := by omega
  unfold SimVRegister.writeQ
  split_ifs
  · simp only [BitVec.getLsbD_setWidth, hlt, decide_true, Bool.true_and]
  · simp only [BitVec.getLsbD_or, BitVec.getLsbD_shiftLeft, BitVec.getLsbD_setWidth, hlt, hi,
      decide_true, Bool.true_and, Bool.not_true, Bool.false_and, Bool.false_or]

theorem readQ_writeQ (r : SimVRegister) (q : VRegisterValue) : (r.writeQ q).readQ = q := by
  obtain ⟨lo, hi⟩ := q
  unfold SimVRegister.readQ
  congr 1
  · apply BitVec.eq_of_getLsbD_eq
    intro i hi
    rw [BitVec.getLsbD_extractLsb', writeQ_getLsbD r _ (by omega), BitVec.getLsbD_append]
    simp [hi]
  · apply BitVec.eq_of_getLsbD_eq
    intro i hi
    rw [BitVec.getLsbD_extractLsb', writeQ_getLsbD r _ (by omega), BitVec.getLsbD_append]
    simp [hi]

theorem setRawValue_setRawValue (r : SimSystemRegister) (a b : BitVec 32) :
    (r.setRawValue a).setRawValue b = r.setRawValue b := by
  unfold SimSystemRegister.setRawValue
  congr 1
  ext i hi
  simp
  cases r.writeIgnoreMask[i] <;> simp

/-- Nothing but registers that can be written differs. -/
def SameFrame (s s' : Sim) : Prop :=
  ∃ registers vregisters nzcv fpcr btype nextBtype fpsr, s' = { s with
    core := { s.core with
      registers := registers, vregisters := vregisters, nzcv := nzcv, fpcr := fpcr,
      btype := btype, nextBtype := nextBtype }
    fpsrStorage := fpsr }

theorem SameFrame.trans {s s' t : Sim} (h : SameFrame s s') (h' : SameFrame s' t) :
    SameFrame s t := by
  obtain ⟨_, _, _, _, _, _, _, rfl⟩ := h
  obtain ⟨_, _, _, _, _, _, _, rfl⟩ := h'
  exact ⟨_, _, _, _, _, _, _, rfl⟩

/-- The simulator `s'` after the writes, made one by one in `s`. -/
structure Wrote (ws : List RegisterWrite) (s s' : Sim) : Prop where
  gp : ∀ i, s'.core.registers i = (lastTo (gpValue i) ws).getD (s.core.registers i)
  v : ∀ i, (s'.core.vregisters i).readQ =
    (lastTo (vValue i) ws).getD (s.core.vregisters i).readQ
  nzcv : s'.core.nzcv =
    ((lastTo (sysValue sysNZCV) ws).map s.core.nzcv.setRawValue).getD s.core.nzcv
  fpcr : s'.core.fpcr =
    ((lastTo (sysValue sysFPCR) ws).map s.core.fpcr.setRawValue).getD s.core.fpcr
  fpsr : s'.fpsrStorage = (lastTo (sysValue sysFPSR) ws).getD s.fpsrStorage
  nextBtype : s'.core.nextBtype =
    if (lastTo (sysValue sysBType) ws).isSome then .default else s.core.nextBtype
  frame : SameFrame s s'

theorem wrote_nil (s : Sim) : Wrote [] s s where
  gp _ := rfl
  v _ := rfl
  nzcv := rfl
  fpcr := rfl
  fpsr := rfl
  nextBtype := rfl
  frame := ⟨_, _, _, _, _, _, _, rfl⟩

/-- The register's earlier raw value does not matter to a later write. -/
theorem setRawValue_of_wrote {r r' : SimSystemRegister} {last : Option (BitVec 32)}
    (h : r' = (last.map r.setRawValue).getD r) (value : BitVec 32) :
    r'.setRawValue value = r.setRawValue value := by
  rw [h]
  cases last with
  | none => rfl
  | some earlier => exact setRawValue_setRawValue r earlier value

theorem sysRegister_append {r r' t : SimSystemRegister} {last new : Option (BitVec 32)}
    (h : r' = (last.map r.setRawValue).getD r) (h' : t = (new.map r'.setRawValue).getD r') :
    t = ((new.or last).map r.setRawValue).getD r := by
  cases new with
  | none => rwa [h'] at *
  | some value =>
      rw [h', Option.some_or]
      exact setRawValue_of_wrote h value

theorem Wrote.append {ws : List RegisterWrite} {r : RegisterWrite} {s s' t : Sim}
    (h : Wrote ws s s') (h' : Wrote [r] s' t) :
    Wrote (ws ++ [r]) s t where
  gp i := by
    rw [lastTo_append, Option.getD_or, ← h.gp i, h'.gp i, lastTo_singleton]
  v i := by
    rw [lastTo_append, Option.getD_or, ← h.v i, h'.v i, lastTo_singleton]
  nzcv := by
    rw [lastTo_append]
    exact sysRegister_append h.nzcv (by simpa using h'.nzcv)
  fpcr := by
    rw [lastTo_append]
    exact sysRegister_append h.fpcr (by simpa using h'.fpcr)
  fpsr := by
    rw [lastTo_append, Option.getD_or, ← h.fpsr, h'.fpsr, lastTo_singleton]
  nextBtype := by
    rw [lastTo_append, h'.nextBtype, h.nextBtype, lastTo_singleton]
    cases sysValue sysBType r <;> rfl
  frame := h.frame.trans h'.frame

theorem sysCode_cases : ∀ code : BitVec 8, code ≤ sysFPSR →
    code = sysNZCV ∨ code = sysFPCR ∨ code = sysFPSR := by
  decide

theorem ofNat_val {code : BitVec 8} (hcode : code ≤ 31) :
    (Core.registerIndex code.toNat).val = code.toNat :=
  Nat.mod_eq_of_lt (Nat.lt_succ_of_le (BitVec.le_def.mp hcode))

theorem write_wrote (s : Sim) {r : RegisterWrite} (hr : r.Allowed) :
    ∃ t, s.write r = .ok t ∧ Wrote [r] s t := by
  cases r with
  | gp code value =>
      have hcode : code ≤ gpSP := hr
      refine ⟨s.setCore (s.core.writeRegister (Core.registerIndex code.toNat) value),
        by simp only [Sim.write, Sim.writeGp, hcode, if_true], ?_⟩
      refine ⟨?_, fun _ => rfl, rfl, rfl, rfl, rfl, ⟨_, _, _, _, _, _, _, rfl⟩⟩
      intro i
      rw [lastTo_singleton]
      change (if i = Core.registerIndex code.toNat then value else s.core.registers i) = _
      by_cases hi : code.toNat = i
      · have heq : i = Core.registerIndex code.toNat := Fin.ext (by rw [ofNat_val hcode, hi])
        rw [if_pos heq]
        simp only [gpValue, hi, if_true, Option.getD_some]
      · have hne : i ≠ Core.registerIndex code.toNat := fun heq => hi (by rw [heq, ofNat_val hcode])
        simp only [gpValue, hi, if_neg hne, if_false, Option.getD_none]
  | v code value =>
      have hcode : code ≤ 31 := hr
      refine ⟨s.setCore { s.core with
          vregisters := fun j => if j = Core.registerIndex code.toNat then
            (s.core.vregisters (Core.registerIndex code.toNat)).writeQ value
            else s.core.vregisters j },
        by simp only [Sim.write, Sim.writeV, hcode, if_true], ?_⟩
      refine ⟨fun _ => rfl, ?_, rfl, rfl, rfl, rfl, ⟨_, _, _, _, _, _, _, rfl⟩⟩
      intro i
      rw [lastTo_singleton]
      change (if i = Core.registerIndex code.toNat then
        (s.core.vregisters (Core.registerIndex code.toNat)).writeQ value
        else s.core.vregisters i).readQ = _
      by_cases hi : code.toNat = i
      · have heq : i = Core.registerIndex code.toNat := Fin.ext (by rw [ofNat_val hcode, hi])
        rw [if_pos heq, readQ_writeQ]
        simp only [vValue, hi, if_true, Option.getD_some]
      · have hne : i ≠ Core.registerIndex code.toNat := fun heq => hi (by rw [heq, ofNat_val hcode])
        simp only [vValue, hi, if_neg hne, if_false, Option.getD_none]
  | sys code value =>
      rcases hr with hcode | ⟨rfl, hvalue⟩
      · rcases sysCode_cases code hcode with rfl | rfl | rfl
        · refine ⟨_, rfl, fun _ => rfl, fun _ => rfl, ?_, rfl, rfl, rfl,
            ⟨_, _, _, _, _, _, _, rfl⟩⟩
          rw [lastTo_singleton]
          rfl
        · refine ⟨_, rfl, fun _ => rfl, fun _ => rfl, rfl, ?_, rfl, rfl,
            ⟨_, _, _, _, _, _, _, rfl⟩⟩
          rw [lastTo_singleton]
          rfl
        · refine ⟨_, rfl, fun _ => rfl, fun _ => rfl, rfl, rfl, ?_, rfl,
            ⟨_, _, _, _, _, _, _, rfl⟩⟩
          rw [lastTo_singleton]
          rfl
      · obtain ⟨b, hb⟩ := Option.isSome_iff_exists.mp hvalue
        refine ⟨s.setCore (s.core.writeNextBType b).updateBType, ?_, fun _ => rfl, fun _ => rfl,
          rfl, rfl, rfl, ?_, ⟨_, _, _, _, _, _, _, rfl⟩⟩
        · have hcodes : sysBType ≠ sysNZCV ∧ sysBType ≠ sysFPCR ∧ sysBType ≠ sysFPSR := by
            decide
          simp only [Sim.write, Sim.writeSys, hcodes, if_false, if_true, hb]
        · rw [lastTo_singleton]
          rfl

theorem writes_wrote (s : Sim) {ws : List RegisterWrite} (hws : ∀ r ∈ ws, r.Allowed) :
    ∃ s', s.writes ws = .ok s' ∧ Wrote ws s s' := by
  induction ws using List.reverseRecOn with
  | nil => exact ⟨s, rfl, wrote_nil s⟩
  | append_singleton ws r ih =>
      obtain ⟨s', hs', hwrote⟩ := ih fun r hr => hws r (List.mem_append_left _ hr)
      obtain ⟨t, ht, hone⟩ := write_wrote s' (hws r (by simp))
      exact ⟨t, (Sim.writes_append hs').trans ht, hwrote.append hone⟩

/-! ## The rest of the step -/

/-- The checks that end a step pass. -/
def concludes (E : Env) (track : Track) (wasMovprfx : Bool) (x : World τ) : Bool :=
  (!wasMovprfx || (!E.vixlDebug || x.core.lastInstr != 0) &&
    E.canTakeSVEMovprfx x.core.instr x.core.formHash (readWord x.core.memory x.core.lastInstr)) &&
  match track with
  | .cache => true
  | .debug => (x.setCore (finishStep x.core)).sim.instructionIsAvailable

theorem conclude_of_concludes {E : Env} {track : Track} {wasMovprfx : Bool} {x : World τ}
    (h : concludes E track wasMovprfx x = true) :
    conclude E track wasMovprfx x = .ok true (x.setCore (finishStep x.core)) := by
  obtain ⟨hpair, htrack⟩ := Bool.and_eq_true_iff.mp h
  have hcheck : checkMovprfx E wasMovprfx x = .ok () x := by
    cases wasMovprfx with
    | false => rfl
    | true =>
        obtain ⟨hlast, htakes⟩ := Bool.and_eq_true_iff.mp hpair
        simp only [checkMovprfx, if_true, vixlAssert, hlast, Action.require_true, Outcome.bind_ok,
          htakes]
  have htail : stepTail E wasMovprfx x = .ok () (x.setCore (finishStep x.core)) := by
    simp only [stepTail, Action.bind_apply, hcheck, Outcome.bind_ok, modifyCore_apply]
  simp only [conclude, Action.bind_apply, htail, Outcome.bind_ok]
  cases track with
  | cache => rfl
  | debug =>
      have havailable : (x.setCore (finishStep x.core)).sim.instructionIsAvailable = true := htrack
      simp only [settle, checkAvailable, havailable, Action.require_true, Outcome.bind_ok,
        Action.pure_apply]

theorem concludes_of_conclude {E : Env} {track : Track} {wasMovprfx : Bool} {x v : World τ}
    (h : conclude E track wasMovprfx x = .ok true v) :
    concludes E track wasMovprfx x = true := by
  simp only [conclude, Action.bind_apply] at h
  obtain ⟨_, y, htail, hrest⟩ := Outcome.bind_eq_ok.mp h
  obtain ⟨_, z, hsettle, -⟩ := Outcome.bind_eq_ok.mp hrest
  rw [stepTail_eq_ok htail] at hsettle
  simp only [stepTail, Action.bind_apply] at htail
  obtain ⟨_, y', hcheck, -⟩ := Outcome.bind_eq_ok.mp htail
  refine Bool.and_eq_true_iff.mpr ⟨?_, ?_⟩
  · cases wasMovprfx with
    | false => rfl
    | true =>
        simp only [checkMovprfx, if_true] at hcheck
        obtain ⟨_, z', hassert, hpair⟩ := Outcome.bind_eq_ok.mp hcheck
        obtain ⟨hlast, rfl⟩ := Action.require_eq_ok.mp hassert
        exact Bool.and_eq_true_iff.mpr ⟨hlast, (Action.require_eq_ok.mp hpair).1⟩
  · cases track with
    | cache => rfl
    | debug => exact (Action.require_eq_ok.mp hsettle).1

/-! ## The step with and without the writes -/

/-- A hook that makes the writes and lets the branch go where it goes. -/
def Host.writing (ws : List RegisterWrite)
    (obs : Option (MemoryWriteEvent → HostProg τ Unit)) : Host τ :=
  ⟨some fun target => HostProg.writes ws (.ret target), obs⟩

/--
Between the ends `s₀` and `s` of the step without and with the writes, each
register that was written reads the last value written, as far as its bits can
be written, and every other one reads the same.
-/
structure WritesSurvive (ws : List RegisterWrite) (s₀ s : Sim) : Prop where
  x : ∀ i, s.readAll.x i = (lastTo (gpValue i.castSucc) ws).getD (s₀.readAll.x i)
  sp : s.readAll.sp = (lastTo (gpValue 31) ws).getD s₀.readAll.sp
  pc : s.readAll.pc = s₀.readAll.pc
  v : ∀ i, s.readAll.v i = (lastTo (vValue i) ws).getD (s₀.readAll.v i)
  nzcv : s.readAll.nzcv = ((lastTo (sysValue sysNZCV) ws).map fun value =>
    (s₀.core.nzcv.setRawValue value).value &&& writableNzcv).getD s₀.readAll.nzcv
  fpcr : s.readAll.fpcr = ((lastTo (sysValue sysFPCR) ws).map fun value =>
    (s₀.core.fpcr.setRawValue value).value).getD s₀.readAll.fpcr
  fpsr : s.readAll.fpsr = (lastTo (sysValue sysFPSR) ws).getD s₀.readAll.fpsr
  btype : s.readAll.btype = ((lastTo (sysValue sysBType) ws).map fun value =>
    (value.setWidth 8).setWidth 32).getD s₀.readAll.btype
  rest : SameFrame s₀ s

/-- The end of a step that commits `target` in `s`. -/
def Sim.committed (s : Sim) (target : Addr) : Sim := s.setCore (finishStep (s.core.writePc target))

theorem committed_btype (s : Sim) (target : Addr) :
    (s.committed target).readAll.btype = s.core.nextBtype.toBits := rfl

theorem writesSurvive_iff {ws : List RegisterWrite} {s s' : Sim} (h : Wrote ws s s')
    (target : Addr) :
    WritesSurvive ws (s.committed target) (s'.committed target) ↔
      ∀ value, lastTo (sysValue sysBType) ws = some value → value.setWidth 8 = 0#8 := by
  have hbtype : (s'.committed target).readAll.btype =
      ((lastTo (sysValue sysBType) ws).map fun _ => 0#32).getD
        (s.committed target).readAll.btype := by
    rw [committed_btype, committed_btype, h.nextBtype]
    cases lastTo (sysValue sysBType) ws <;> rfl
  constructor
  · intro hsurvive value hlast
    have hread := hsurvive.btype
    rw [hbtype, hlast, Option.map_some, Option.getD_some, Option.map_some,
      Option.getD_some] at hread
    have hlow := congrArg (BitVec.setWidth 8) hread
    simpa using hlow.symm
  · intro hzero
    refine ⟨fun i => h.gp i.castSucc, h.gp 31, rfl, h.v, ?_, ?_, h.fpsr, ?_, ?_⟩
    · have hbefore : (s.committed target).readAll.nzcv = s.core.nzcv.value &&& writableNzcv :=
        readNzcv_eq (s.committed target)
      have hafter : (s'.committed target).readAll.nzcv = s'.core.nzcv.value &&& writableNzcv :=
        readNzcv_eq (s'.committed target)
      rw [hbefore, hafter, h.nzcv]
      cases lastTo (sysValue sysNZCV) ws <;> rfl
    · change s'.core.fpcr.value = _
      rw [h.fpcr]
      cases lastTo (sysValue sysFPCR) ws <;> rfl
    · rw [hbtype]
      cases hlast : lastTo (sysValue sysBType) ws with
      | none => rfl
      | some value =>
          simp only [Option.map_some, Option.getD_some, hzero value hlast]
          rfl
    · obtain ⟨_, _, _, _, _, _, _, rfl⟩ := h.frame
      exact ⟨_, _, _, _, _, _, _, rfl⟩

/--
For every taken branch and every sequence of writes that the contract allows
in the hook, the writes survive the step, and nothing else changes, exactly
when the branch type is not written or 0 is what is written to it last.
-/
theorem hookWrites_iff {E : Env} {nested : ExecCall → Act τ Bool}
    {obs : Option (MemoryWriteEvent → HostProg τ Unit)} {track : Track} {w u v₀ : World τ}
    {target : Addr} {ws : List RegisterWrite} (hasked : asked E track w = some (target, u))
    (hws : ∀ r ∈ ws, r.Allowed)
    (hidentity : stepOnce E (Host.passThrough obs) nested track w = .ok true v₀) :
    ∃ v, stepOnce E (Host.writing ws obs) nested track w = .ok true v ∧
      (WritesSurvive ws v₀.sim v.sim ↔
        ∀ value, lastTo (sysValue sysBType) ws = some value → value.setWidth 8 = 0#8) := by
  have hpc := (stepOnce_eq_ok hidentity).1
  obtain ⟨s', hwrites, hwrote⟩ := writes_wrote u.sim hws
  -- The step with the identity hook.
  rw [stepOnce_asked (H := Host.passThrough obs) rfl hpc hasked] at hidentity
  simp only [HostProg.run, Action.pure_apply, Outcome.bind_ok] at hidentity
  split_ifs at hidentity with halign
  obtain rfl := conclude_eq_ok hidentity
  have hpasses := concludes_of_conclude hidentity
  -- The step with the writes.
  have hstep : stepOnce E (Host.writing ws obs) nested track w = _ :=
    stepOnce_asked rfl hpc hasked
  rw [HostProg.run_writes hwrites] at hstep
  simp only [HostProg.run, Action.pure_apply, Outcome.bind_ok, halign, if_true] at hstep
  have hframe := hwrote.frame
  have hpasses' : concludes E track (lastInstrWasMovprfx w.core)
      (({ u with sim := s' } : World τ).setCore (s'.core.writePc target)) = true := by
    obtain ⟨_, _, _, _, _, _, _, rfl⟩ := hframe
    exact hpasses
  rw [hstep]
  exact ⟨_, conclude_of_concludes hpasses', writesSurvive_iff hwrote target⟩

/-! ## Writes in a return -/

def returnWriting (ws : List RegisterWrite) : Outcome Abort (World Unit) Bool :=
  stepOnce (smallEnv true) (Host.writing ws none) (fun _ => Action.timeout) .cache
    (returnTo 0x1000)

/-- X0, V1, the flags, and X0 again. -/
def plainWrites : List RegisterWrite :=
  [.gp 0 1, .v 1 ⟨2, 3⟩, .sys sysNZCV 0x80000000, .gp 0 4]

theorem hookWrites_iff_plain :
    ∃ v₀ v, returnStep (returnTo 0x1000) = .ok true v₀ ∧
      returnWriting plainWrites = .ok true v ∧ WritesSurvive plainWrites v₀.sim v.sim := by
  have hasked : (asked (smallEnv true) .cache (returnTo 0x1000)).map Prod.fst =
      some 0x1000 := by decide +kernel
  have hends : (returnStep (returnTo 0x1000)).result?.map Prod.fst = some true := by
    decide +kernel
  obtain ⟨⟨_, u⟩, hbranch, rfl⟩ := Option.map_eq_some_iff.mp hasked
  obtain ⟨⟨_, v₀⟩, hresult, rfl⟩ := Option.map_eq_some_iff.mp hends
  have hidentity := Outcome.eq_ok_of_result?_eq hresult
  have hallowed : ∀ r ∈ plainWrites, r.Allowed := by decide
  obtain ⟨v, hstep, hiff⟩ := hookWrites_iff hbranch hallowed hidentity
  refine ⟨v₀, v, hidentity, hstep, hiff.mpr ?_⟩
  intro value hlast
  cases hlast

/-- A branch type written in the hook is lost before the step ends. -/
theorem btypeWrite_lost :
    ¬∀ (ws : List RegisterWrite) (v₀ v : World Unit), (∀ r ∈ ws, r.Allowed) →
      returnStep (returnTo 0x1000) = .ok true v₀ → returnWriting ws = .ok true v →
        WritesSurvive ws v₀.sim v.sim := by
  intro h
  have hplain : (returnStep (returnTo 0x1000)).result?.map Prod.fst = some true := by
    decide +kernel
  have hwriting : (returnWriting [.sys sysBType 1]).result?.map
      (fun r => (r.1, r.2.sim.readAll.btype)) = some (true, 0) := by decide +kernel
  obtain ⟨⟨_, v₀⟩, hresult, rfl⟩ := Option.map_eq_some_iff.mp hplain
  obtain ⟨⟨more, v⟩, hresult', hread⟩ := Option.map_eq_some_iff.mp hwriting
  obtain ⟨rfl, hbtype⟩ := Prod.mk.inj hread
  have hsurvive := h [.sys sysBType 1] v₀ v (by decide) (Outcome.eq_ok_of_result?_eq hresult)
    (Outcome.eq_ok_of_result?_eq hresult')
  have hlast : v.sim.readAll.btype = 1 := hsurvive.btype
  rw [hbtype] at hlast
  exact absurd hlast (by decide)

end GabyVm.Engine
