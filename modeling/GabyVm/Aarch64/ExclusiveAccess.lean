import GabyVm.Aarch64.AtomicStores
import GabyVm.Aarch64.QuietLeaves

/-!
# Exclusive loads and stores

An exclusive load marks its range in the local monitor and an exclusive store
asks the monitors before it stores.  Here is what either does when nobody
observes it.
-/

namespace GabyVm.Aarch64

/-! ## Loads -/

/-- `local_monitor_.MarkExclusive`. -/
def markExclusive (address : Addr) (size : Nat) (c : Core) : Core :=
  { c with localMonitor := { c.localMonitor with address := address, size := size } }

/-- The monitors before a load; an ordinary one clears the local monitor. -/
def settleLoad (w : Word) (address : Addr) (c : Core) : Core :=
  if w.isExclusive then markExclusive address (exclusiveAccessSize w) c else clearLocalMonitor c

def loadExclusive (m : AccessChecks) (w : Word) : LeafM Unit := do
  let c ← LeafM.get
  let op := storeOpOfSize w.getSizeBits
  let address := readBase c w.getRn
  LeafM.check (isValidUnalignedAtomicAccess c w.getRn address (exclusiveAccessSize w))
    alignmentException
  LeafM.modify (settleLoad w address)
  let value ← LeafM.memRead m op.size address
  if w.isPair then
    let value2 ← LeafM.memRead m op.size (address + BitVec.ofNat 64 op.size)
    writeLoaded w.getRt value
    writeLoaded w.getRt2 value2
  else writeLoaded w.getRt value

/-! ## What a step keeps -/

namespace LeafM

/-- A step, also one that ends the leaf early, leaves a part of the state alone. -/
def Keeps {α β : Type} (part : Core → β) (x : LeafM α) : Prop :=
  ∀ c c' k, (x c k).quiet = .ok c' →
    part c' = part c ∨ ∃ a d, part d = part c ∧ (k a d).quiet = .ok c'

namespace Keeps

variable {α β γ : Type} {part : Core → γ} {m : AccessChecks} {size : Nat} {a : Addr}

theorem run {x : LeafM Unit} (hx : x.Keeps part) {c c' : Core}
    (h : (x.run c).quiet = .ok c') : part c' = part c := by
  rcases hx c c' _ h with hend | ⟨_, d, hd, hdone⟩
  · exact hend
  · rw [LeafProg.quiet, Except.ok.injEq] at hdone
    rw [← hdone, hd]

theorem bind {x : LeafM α} {y : α → LeafM β} (hx : x.Keeps part) (hy : ∀ a, (y a).Keeps part) :
    (x >>= y).Keeps part := by
  intro c c' k h
  rcases hx c c' _ h with hend | ⟨a, d, hd, hnext⟩
  · exact .inl hend
  · rcases hy a d c' k hnext with hend | ⟨b, e, he, hlast⟩
    · exact .inl (hend.trans hd)
    · exact .inr ⟨b, e, he.trans hd, hlast⟩

theorem pure (a : α) : (Pure.pure a : LeafM α).Keeps part :=
  fun c _ _ h => .inr ⟨a, c, rfl, h⟩

theorem get : LeafM.get.Keeps part := fun c _ _ h => .inr ⟨c, c, rfl, h⟩

theorem modify {f : Core → Core} (hf : ∀ c, part (f c) = part c) : (LeafM.modify f).Keeps part :=
  fun c _ _ h => .inr ⟨(), f c, hf c, h⟩

theorem onlyIf {b : Bool} {x : LeafM Unit} (hx : x.Keeps part) :
    (LeafM.onlyIf b x).Keeps part := by
  cases b with
  | true => exact hx
  | false => exact pure ()

theorem memRead : (LeafM.memRead m size a).Keeps part := by
  intro c c' k h
  simp only [LeafM.memRead, settle] at h
  cases hv : m.read c c.pc a size with
  | granted =>
      rw [hv] at h
      exact .inr ⟨_, c, rfl, h⟩
  | failed =>
      rw [hv] at h
      exact .inl (congrArg part (Except.ok.inj h)).symm
  | aborts message =>
      rw [hv] at h
      cases h

theorem memWrite (hpart : ∀ c value, part (c.writeMemory a value size) = part c)
    (value : BitVec (8 * size)) : (LeafM.memWrite m size a value).Keeps part := by
  intro c c' k h
  simp only [LeafM.memWrite, settle] at h
  cases hv : m.write c c.pc a size with
  | granted =>
      rw [hv] at h
      exact .inr ⟨(), _, hpart c _, h⟩
  | failed =>
      rw [hv] at h
      exact .inl (congrArg part (Except.ok.inj h)).symm
  | aborts message =>
      rw [hv] at h
      cases h

end Keeps

theorem quiet_of_check {ok : Bool} {message : String} {c c' : Core} {k : Unit → Core → LeafProg}
    (h : (check ok message c k).quiet = .ok c') : ok = true ∧ (k () c).quiet = .ok c' := by
  cases ok with
  | true => exact ⟨rfl, h⟩
  | false => cases h

end LeafM

/-! ## The monitors after an access -/

def monitorState (c : Core) : SimExclusiveLocalMonitor × BitVec 32 :=
  (c.localMonitor, c.globalMonitorSeed)

theorem monitorState_writeTransfer (c : Core) (rt : BitVec 5) (value : BitVec 64) :
    monitorState (writeTransfer c rt value) = monitorState c := by
  cases hzero : decide (rt = 31) <;> simp_all [writeTransfer, monitorState, Core.writeRegister]

theorem keeps_writeLoaded {n : Nat} (rt : BitVec 5) (data : BitVec n) :
    (writeLoaded rt data).Keeps monitorState :=
  .modify fun c => monitorState_writeTransfer c rt _

theorem keeps_storeRegister (m : AccessChecks) (op : StoreOp) (address : Addr) (rt : BitVec 5) :
    (storeRegister m op address rt).Keeps monitorState :=
  .bind .get fun _ => .memWrite (fun _ _ => rfl) _

theorem monitorState_loadExclusive {m : AccessChecks} {w : Word} {c c' : Core}
    (h : ((loadExclusive m w).run c).quiet = .ok c') :
    monitorState c' = monitorState (settleLoad w (readBase c w.getRn) c) := by
  simp only [LeafM.run, loadExclusive, LeafM.bind_apply, LeafM.get_apply, LeafM.modify_apply] at h
  obtain ⟨-, hrest⟩ := LeafM.quiet_of_check h
  have hkeeps : LeafM.Keeps monitorState (do
      let value ← LeafM.memRead m (storeOpOfSize w.getSizeBits).size (readBase c w.getRn)
      if w.isPair then
        let value2 ← LeafM.memRead m (storeOpOfSize w.getSizeBits).size
          (readBase c w.getRn + BitVec.ofNat 64 (storeOpOfSize w.getSizeBits).size)
        writeLoaded w.getRt value
        writeLoaded w.getRt2 value2
      else writeLoaded w.getRt value) := by
    apply LeafM.Keeps.bind .memRead
    intro value
    cases w.isPair with
    | true =>
        exact .bind .memRead fun value2 => .bind (keeps_writeLoaded _ _) fun _ =>
          keeps_writeLoaded _ _
    | false => exact keeps_writeLoaded _ _
  exact hkeeps.run hrest

theorem monitorState_storeExclusive {m : AccessChecks} {w : Word} {c c' : Core}
    (h : ((storeExclusive m w).run c).quiet = .ok c') :
    monitorState c' = monitorState (settleMonitors w (readBase c w.getRn) c) := by
  simp only [LeafM.run, storeExclusive, LeafM.bind_apply, LeafM.get_apply, LeafM.modify_apply] at h
  obtain ⟨-, hrest⟩ := LeafM.quiet_of_check h
  exact LeafM.Keeps.run (.onlyIf (.bind (keeps_storeRegister _ _ _ _) fun _ =>
    .onlyIf (keeps_storeRegister _ _ _ _))) hrest

theorem memory_storeExclusive {m : AccessChecks} {w : Word} {c c' : Core}
    (h : ((storeExclusive m w).run c).quiet = .ok c') (hw : w.isExclusive = true)
    (hrefused : isExclusive c (readBase c w.getRn) (exclusiveAccessSize w) = false) :
    c'.memory = c.memory := by
  simp only [LeafM.run, storeExclusive, LeafM.bind_apply, LeafM.get_apply, LeafM.modify_apply] at h
  obtain ⟨-, hrest⟩ := LeafM.quiet_of_check h
  rw [hw, hrefused] at hrest
  have hdone : settleMonitors w (readBase c w.getRn) c = c' := Except.ok.inj hrest
  rw [← hdone]
  exact (settleMonitors_frame w (readBase c w.getRn) c).1

/-! ## Granted accesses to one register -/

theorem exclusiveAccessSize_single {w : Word} (hw : w.isPair = false) :
    exclusiveAccessSize w = (storeOpOfSize w.getSizeBits).size := by
  simp [exclusiveAccessSize, hw]

theorem storeOpOfSize_value (n : Nat) (c : Core) (rt : BitVec 5) :
    (storeOpOfSize n).value c rt = c.readRegister (storeOpOfSize n).size rt := by
  have hscalar : (storeOpOfSize n).isVector = false := by
    unfold storeOpOfSize
    split <;> rfl
  rw [StoreOp.value, hscalar]
  rfl

theorem mteTags_settleLoad (w : Word) (address : Addr) (c : Core) :
    (settleLoad w address c).mteTags = c.mteTags := by
  cases hw : w.isExclusive <;> simp [settleLoad, hw, markExclusive, clearLocalMonitor]

theorem memory_settleLoad (w : Word) (address : Addr) (c : Core) :
    (settleLoad w address c).memory = c.memory := by
  cases hw : w.isExclusive <;> simp [settleLoad, hw, markExclusive, clearLocalMonitor]

theorem quiet_loadExclusive {m : AccessChecks} {w : Word} {c : Core} (hw : w.isPair = false)
    (hvalid : isValidUnalignedAtomicAccess c w.getRn (readBase c w.getRn)
      (exclusiveAccessSize w) = true)
    (hgrant : m.grants c.mteTags (readBase c w.getRn) (exclusiveAccessSize w) = true) :
    ((loadExclusive m w).run c).quiet =
      .ok (writeTransfer (settleLoad w (readBase c w.getRn) c) w.getRt
        ((LeafM.readBytes c.memory (addressUntag (readBase c w.getRn))
          (storeOpOfSize w.getSizeBits).size).setWidth 64)) := by
  rw [exclusiveAccessSize_single hw] at hgrant
  rw [← mteTags_settleLoad w (readBase c w.getRn) c] at hgrant
  simp only [LeafM.run, loadExclusive, LeafM.bind_apply, LeafM.get_apply, LeafM.modify_apply]
  rw [LeafM.quiet_check hvalid, LeafM.quiet_memRead hgrant, hw, memory_settleLoad]
  rfl

theorem quiet_storeExclusive {m : AccessChecks} {w : Word} {c : Core} (hw : w.isPair = false)
    (hvalid : isValidUnalignedAtomicAccess c w.getRn (readBase c w.getRn)
      (exclusiveAccessSize w) = true)
    (hgrant : m.grants c.mteTags (readBase c w.getRn) (exclusiveAccessSize w) = true)
    (hmade : isExclusive c (readBase c w.getRn) (exclusiveAccessSize w) = true) :
    ((storeExclusive m w).run c).quiet =
      .ok ((settleMonitors w (readBase c w.getRn) c).writeMemory (readBase c w.getRn)
        (((settleMonitors w (readBase c w.getRn) c).readRegister (storeOpOfSize w.getSizeBits).size
          w.getRt).setWidth 128) (storeOpOfSize w.getSizeBits).size) := by
  have hframe := (settleMonitors_frame w (readBase c w.getRn) c).2
  rw [exclusiveAccessSize_single hw] at hgrant
  rw [← mteTags_congr hframe] at hgrant
  have hstore : LeafM.onlyIf (!w.isExclusive || isExclusive c (readBase c w.getRn)
      (exclusiveAccessSize w)) (do
        storeRegister m (storeOpOfSize w.getSizeBits) (readBase c w.getRn) w.getRt
        LeafM.onlyIf w.isPair (storeRegister m (storeOpOfSize w.getSizeBits)
          (readBase c w.getRn + BitVec.ofNat 64 (storeOpOfSize w.getSizeBits).size) w.getRt2)) =
      storeRegister m (storeOpOfSize w.getSizeBits) (readBase c w.getRn) w.getRt := by
    rw [hmade, hw, Bool.or_true]
    rfl
  simp only [LeafM.run, storeExclusive, LeafM.bind_apply, LeafM.get_apply, LeafM.modify_apply]
  rw [LeafM.quiet_check hvalid, hstore, storeRegister]
  simp only [LeafM.bind_apply, LeafM.get_apply]
  rw [LeafM.quiet_memWrite hgrant, storeOpOfSize_value]
  rfl

theorem quiet_storeExclusive_refused {m : AccessChecks} {w : Word} {c : Core}
    (hw : w.isExclusive = true)
    (hvalid : isValidUnalignedAtomicAccess c w.getRn (readBase c w.getRn)
      (exclusiveAccessSize w) = true)
    (hrefused : isExclusive c (readBase c w.getRn) (exclusiveAccessSize w) = false) :
    ((storeExclusive m w).run c).quiet = .ok (settleMonitors w (readBase c w.getRn) c) := by
  simp only [LeafM.run, storeExclusive, LeafM.bind_apply, LeafM.get_apply, LeafM.modify_apply]
  rw [LeafM.quiet_check hvalid, hw, hrefused]
  rfl

end GabyVm.Aarch64
