import GabyVm.Aarch64.ExclusiveAccess
import GabyVm.Engine.Initial
import GabyVm.Foundation.Orbit

/-!
# The exclusive monitors

The local monitor holds the address and size of the last exclusive load; the
global monitor makes some exclusive stores fail, as another processor would.
Both are driven by generators with a fixed seed.  An exclusive store succeeds
only on a reservation of its own, and although the monitors may fail it, a
guest that tries again gets through.
-/

namespace GabyVm.Engine

open GabyVm.Aarch64
open GabyVm.Foundation

/-! ## What instructions do to the monitors -/

structure Monitors where
  localMonitor : SimExclusiveLocalMonitor
  globalSeed : BitVec 32
  deriving DecidableEq, Repr

inductive MonitorOp where
  /-- A load-exclusive. -/
  | markExclusive (address : Addr) (size : Nat)
  /-- CLREX, an ordered load, a compare and swap. -/
  | clear
  /-- Any other load or store, and PRFM: a chance to clear the monitor. -/
  | maybeClear
  | storeExclusive (address : Addr) (size : Nat)
  deriving DecidableEq, Repr

namespace Monitors

def marked (m : Monitors) (address : Addr) (size : Nat) : Bool :=
  size == m.localMonitor.size && address == m.localMonitor.address

/-- Whether an exclusive store is made. -/
def grants (m : Monitors) (address : Addr) (size : Nat) : Bool :=
  m.marked address size && m.globalSeed.toNat % 8 != 0

def clear (m : Monitors) : Monitors :=
  { m with localMonitor := { m.localMonitor with address := 0, size := 0 } }

def step (m : Monitors) : MonitorOp → Monitors
  | .markExclusive address size =>
      { m with localMonitor := { m.localMonitor with address := address, size := size } }
  | .clear => m.clear
  | .maybeClear =>
      let cleared := if m.localMonitor.seed.toNat % 8 != 0 then m.clear else m
      { cleared with
        localMonitor := { cleared.localMonitor with seed := nextSeed m.localMonitor.seed } }
  | .storeExclusive address size =>
      let asked := if m.marked address size then { m with globalSeed := nextSeed m.globalSeed }
        else m
      asked.clear

def run (m : Monitors) (ops : List MonitorOp) : Monitors := ops.foldl step m

theorem run_append (m : Monitors) (ops ops' : List MonitorOp) :
    m.run (ops ++ ops') = (m.run ops).run ops' := List.foldl_append

end Monitors

def freshMonitors : Monitors := ⟨⟨0, 0, exclusiveMonitorSeed⟩, exclusiveMonitorSeed⟩

/-! ## Reservations -/

namespace Monitors

theorem marked_of_clear {m : Monitors} {address : Addr} {size : Nat} (hsize : 0 < size)
    (h : m.localMonitor.size = 0) : m.marked address size = false := by
  have hne : (size == m.localMonitor.size) = false := by
    rw [beq_eq_false_iff_ne]
    omega
  rw [marked, hne, Bool.false_and]

/-- A marked range was marked by the last operation that is no ordinary access. -/
theorem marked_run {m : Monitors} (hm : m.localMonitor.size = 0) {ops : List MonitorOp}
    {address : Addr} {size : Nat} (hsize : 0 < size)
    (h : (m.run ops).marked address size = true) :
    ∃ before after, ops = before ++ .markExclusive address size :: after ∧
      ∀ op ∈ after, op = .maybeClear := by
  induction ops using List.reverseRecOn with
  | nil =>
      rw [run, List.foldl_nil, marked_of_clear hsize hm] at h
      cases h
  | append_singleton ops op ih =>
      have hstep : m.run (ops ++ [op]) = (m.run ops).step op := run_append m ops [op]
      rw [hstep] at h
      cases op with
      | markExclusive address' size' =>
          simp only [step, marked, Bool.and_eq_true, beq_iff_eq] at h
          obtain ⟨rfl, rfl⟩ := h
          exact ⟨ops, [], rfl, by simp⟩
      | clear =>
          rw [marked_of_clear hsize rfl] at h
          cases h
      | maybeClear =>
          cases hclear : (m.run ops).localMonitor.seed.toNat % 8 != 0 with
          | true =>
              rw [marked_of_clear hsize (by simp [step, hclear, clear])] at h
              cases h
          | false =>
              have hkept : (m.run ops).marked address size = true := by
                simpa [step, hclear, marked] using h
              obtain ⟨before, after, rfl, hall⟩ := ih hkept
              refine ⟨before, after ++ [.maybeClear], by simp, fun op hop => ?_⟩
              rcases List.mem_append.mp hop with hop | hop
              · exact hall op hop
              · exact List.mem_singleton.mp hop
      | storeExclusive address' size' =>
          rw [marked_of_clear hsize rfl] at h
          cases h

end Monitors

/-! ## Runs of guest code -/

def monitors (c : Core) : Monitors := ⟨c.localMonitor, c.globalMonitorSeed⟩

theorem monitors_congr {c d : Core} (h : monitorState c = monitorState d) :
    monitors c = monitors d := by
  rw [monitorState, monitorState, Prod.mk.injEq] at h
  rw [monitors, monitors, h.1, h.2]

theorem monitors_resetState (mem : Memory) (sp : Addr) :
    monitors (resetState mem sp) = freshMonitors := rfl

theorem monitors_clear (c : Core) :
    monitors (clearLocalMonitor c) = (monitors c).step .clear := rfl

theorem monitors_maybeClear (c : Core) :
    monitors (maybeClearLocalMonitor c) = (monitors c).step .maybeClear := by
  cases hclear : c.localMonitor.seed.toNat % 8 != 0 <;>
    simp [monitors, maybeClearLocalMonitor, Monitors.step, Monitors.clear, clearLocalMonitor, hclear]

theorem isExclusive_eq (c : Core) (address : Addr) (size : Nat) :
    isExclusive c address size = (monitors c).grants address size := rfl

/-- What the loads of `VisitLoadStoreExclusive` do to the monitors. -/
def loadOp (w : Word) (address : Addr) : MonitorOp :=
  if w.isExclusive then .markExclusive address (exclusiveAccessSize w) else .clear

def storeOp (w : Word) (address : Addr) : MonitorOp :=
  if w.isExclusive then .storeExclusive address (exclusiveAccessSize w) else .maybeClear

theorem monitors_settleLoad (w : Word) (address : Addr) (c : Core) :
    monitors (settleLoad w address c) = (monitors c).step (loadOp w address) := by
  cases hw : w.isExclusive <;>
    simp [settleLoad, loadOp, hw, markExclusive, clearLocalMonitor, monitors, Monitors.step,
      Monitors.clear]

theorem monitors_settle (w : Word) (address : Addr) (c : Core) :
    monitors (settleMonitors w address c) = (monitors c).step (storeOp w address) := by
  cases hw : w.isExclusive with
  | false => simp [settleMonitors, storeOp, hw, monitors_maybeClear]
  | true =>
      have hask : monitors (askMonitors c address (exclusiveAccessSize w)) =
          if (monitors c).marked address (exclusiveAccessSize w) then
            { monitors c with globalSeed := nextSeed (monitors c).globalSeed }
          else monitors c := by
        cases hmarked : exclusiveAccessSize w == c.localMonitor.size &&
            address == c.localMonitor.address <;>
          simp [askMonitors, Monitors.marked, monitors, hmarked]
      simp only [settleMonitors, storeOp, hw, if_true, monitors_clear,
        monitors_congr (monitorState_writeTransfer _ _ _), hask, Monitors.step]

/-- The states that guest code reaches in a new simulator, with what it did to the monitors. -/
inductive GuestReaches : List MonitorOp → Core → Prop where
  | start (mem : Memory) (sp : Addr) : GuestReaches [] (resetState mem sp)
  | load {ops : List MonitorOp} {c c' : Core} (m : AccessChecks) (w : Word)
      (hc : GuestReaches ops c) (hrun : ((loadExclusive m w).run c).quiet = .ok c') :
      GuestReaches (ops ++ [loadOp w (readBase c w.getRn)]) c'
  | store {ops : List MonitorOp} {c c' : Core} (m : AccessChecks) (w : Word)
      (hc : GuestReaches ops c) (hrun : ((storeExclusive m w).run c).quiet = .ok c') :
      GuestReaches (ops ++ [storeOp w (readBase c w.getRn)]) c'
  /-- Most instructions. -/
  | quiet {ops : List MonitorOp} {c c' : Core} (hc : GuestReaches ops c)
      (hsame : monitors c' = monitors c) : GuestReaches ops c'
  /-- A compare and swap, or CLREX. -/
  | clear {ops : List MonitorOp} {c c' : Core} (hc : GuestReaches ops c)
      (hclear : monitors c' = monitors (clearLocalMonitor c)) : GuestReaches (ops ++ [.clear]) c'
  /-- An ordinary access: a load or store of one register or a pair, a literal load, PRFM. -/
  | maybeClear {ops : List MonitorOp} {c c' : Core} (hc : GuestReaches ops c)
      (hclear : monitors c' = monitors (maybeClearLocalMonitor c)) :
      GuestReaches (ops ++ [.maybeClear]) c'

theorem GuestReaches.monitors {ops : List MonitorOp} {c : Core} (h : GuestReaches ops c) :
    monitors c = freshMonitors.run ops := by
  have hlast (ops : List MonitorOp) (op : MonitorOp) :
      freshMonitors.run (ops ++ [op]) = (freshMonitors.run ops).step op :=
    Monitors.run_append _ ops [op]
  induction h with
  | start mem sp => exact monitors_resetState mem sp
  | load m w hc hrun ih =>
      rw [monitors_congr (monitorState_loadExclusive hrun), monitors_settleLoad, ih, hlast]
  | store m w hc hrun ih =>
      rw [monitors_congr (monitorState_storeExclusive hrun), monitors_settle, ih, hlast]
  | quiet hc hsame ih => rw [hsame, ih]
  | clear hc hclear ih => rw [hclear, monitors_clear, ih, hlast]
  | maybeClear hc hclear ih => rw [hclear, monitors_maybeClear, ih, hlast]

theorem exclusiveAccessSize_pos (w : Word) : 0 < exclusiveAccessSize w := by
  have hsize : 0 < (storeOpOfSize w.getSizeBits).size := by
    unfold storeOpOfSize
    split <;> decide
  cases hpair : w.isPair <;> simp [exclusiveAccessSize, hpair, hsize]

/--
An exclusive store that writes to memory has a reservation of its own: an
exclusive load of the same address and size, with nothing but ordinary accesses
between the two.
-/
theorem exclusiveStore_reserved {ops : List MonitorOp} {c c' : Core} (hc : GuestReaches ops c)
    {m : AccessChecks} {w : Word} (hw : w.isExclusive = true)
    (hrun : ((storeExclusive m w).run c).quiet = .ok c') (hstored : c'.memory ≠ c.memory) :
    ∃ before after,
      ops = before ++ .markExclusive (readBase c w.getRn) (exclusiveAccessSize w) :: after ∧
        ∀ op ∈ after, op = .maybeClear := by
  cases hmade : isExclusive c (readBase c w.getRn) (exclusiveAccessSize w) with
  | false => exact absurd (memory_storeExclusive hrun hw hmade) hstored
  | true =>
      rw [isExclusive_eq, hc.monitors, Monitors.grants, Bool.and_eq_true] at hmade
      exact Monitors.marked_run rfl (exclusiveAccessSize_pos w) hmade.1

/-- LDXR x1, [x0]; STXR w2, x3, [x0] on a new simulator. -/
theorem exclusiveStore_reserved_pair :
    ∃ before after, [MonitorOp.markExclusive 0x1000 8] =
        before ++ .markExclusive 0x1000 8 :: after ∧ ∀ op ∈ after, op = .maybeClear := by
  have hstart : GuestReaches []
      (((resetState (fun _ => 0) 0x8000).writeRegister 0 0x1000).writeRegister 3 1) :=
    .quiet (.start (fun _ => 0) 0x8000) rfl
  have hload : GuestReaches [.markExclusive 0x1000 8] _ := .load .off 0xc85f7c01 hstart rfl
  refine exclusiveStore_reserved hload (m := .off) (w := 0xc8027c03) rfl rfl ?_
  intro hsame
  have hbyte := congrFun hsame 0x1000
  revert hbyte
  decide

/-! ## Seeds -/

def seedStep (s : Nat) : Nat := s * 48271 % 4294967296 % 2147483647

theorem nextSeed_toNat (seed : BitVec 32) : (nextSeed seed).toNat = seedStep seed.toNat := by
  have hlt : (seed * 48271).toNat % 2147483647 < 2 ^ 32 :=
    (Nat.mod_lt _ (by omega)).trans (by omega)
  rw [nextSeed, BitVec.toNat_ofNat, Nat.mod_eq_of_lt hlt, BitVec.toNat_mul, seedStep]
  rfl

/-- Whether one of the next seeds lets an access pass. -/
def passesWithin : Nat → Nat → Bool
  | 0, s => s % 8 != 0
  | k + 1, s => s % 8 != 0 || passesWithin k (seedStep s)

theorem exists_of_passesWithin {k s : Nat} (h : passesWithin k s = true) :
    ∃ j ≤ k, (seedStep^[j] s) % 8 ≠ 0 := by
  induction k generalizing s with
  | zero => exact ⟨0, Nat.le_refl 0, by simpa [passesWithin] using h⟩
  | succ k ih =>
      rw [passesWithin, Bool.or_eq_true, bne_iff_ne] at h
      rcases h with h | h
      · exact ⟨0, by omega, h⟩
      · obtain ⟨j, hj, hpass⟩ := ih h
        refine ⟨j + 1, by omega, ?_⟩
        rw [Function.iterate_succ_apply]
        exact hpass

def fourSteps (s : Nat) : Nat := seedStep (seedStep (seedStep (seedStep s)))

def sixteenSteps (s : Nat) : Nat := fourSteps (fourSteps (fourSteps (fourSteps s)))

theorem iterate_sixteen (f : Nat → Nat) (s : Nat) :
    f (f (f (f (f (f (f (f (f (f (f (f (f (f (f (f s))))))))))))))) = f^[16] s := rfl

/-- The tail and the cycle of the seeds, as powers of two of strides of sixteen. -/
def tailPowers : List Nat := [12, 10, 9, 6, 5, 3, 2]

def cyclePowers : List Nat := [12, 9, 8, 6, 5, 3]

theorem scan_tail :
    scanOrbit (guarded sixteenSteps (passesWithin 13)) tailPowers 0x87654321 = 1041602155 := by
  decide +kernel

theorem scan_cycle :
    scanOrbit (guarded sixteenSteps (passesWithin 13)) cyclePowers 1041602155 = 899985718 := by
  decide +kernel

theorem seeds_close : Closes seedStep sixteenSteps (passesWithin 13) 0x87654321 16
    (scanSteps tailPowers) (scanSteps cyclePowers) 5 := by
  have hzero : guarded sixteenSteps (passesWithin 13) 0 = 0 := by decide
  have htail := scan_tail
  have hcycle := scan_cycle
  rw [scanOrbit_eq hzero] at htail hcycle
  exact
    { stride := fun s => iterate_sixteen seedStep s
      stride_pos := by omega
      check_zero := by decide
      rest_le := by omega
      tail_ne := by
        rw [htail]
        omega
      round_ne := by
        rw [htail, hcycle]
        omega
      round_pos := by decide
      back := by
        rw [htail, hcycle]
        decide }

/-- From every seed of a simulator one of the next 34 lets an access pass. -/
theorem seeds_pass (k : Nat) : ∃ j ≤ 33, (seedStep^[k + j] 0x87654321) % 8 ≠ 0 := by
  obtain ⟨i, hi, hsoon⟩ := seeds_close.checks k
  obtain ⟨j, hj, hpass⟩ := exists_of_passesWithin hsoon
  refine ⟨i + j, by omega, ?_⟩
  rw [← Nat.add_assoc, Nat.add_comm (k + i) j, Function.iterate_add_apply]
  exact hpass

/-- The seeds that the history of a new simulator leaves behind. -/
theorem run_seeds (ops : List MonitorOp) :
    (∃ i, (freshMonitors.run ops).localMonitor.seed.toNat = seedStep^[i] 0x87654321) ∧
      ∃ k, (freshMonitors.run ops).globalSeed.toNat = seedStep^[k] 0x87654321 := by
  induction ops using List.reverseRecOn with
  | nil => exact ⟨⟨0, rfl⟩, 0, rfl⟩
  | append_singleton ops op ih =>
      obtain ⟨⟨i, hi⟩, k, hk⟩ := ih
      have hstep : freshMonitors.run (ops ++ [op]) = (freshMonitors.run ops).step op :=
        Monitors.run_append _ ops [op]
      have hnext (seed : BitVec 32) (n : Nat) (hseed : seed.toNat = seedStep^[n] 0x87654321) :
          (nextSeed seed).toNat = seedStep^[n + 1] 0x87654321 := by
        rw [nextSeed_toNat, hseed, Function.iterate_succ_apply']
      rw [hstep]
      cases op with
      | markExclusive address size => exact ⟨⟨i, hi⟩, k, hk⟩
      | clear => exact ⟨⟨i, hi⟩, k, hk⟩
      | maybeClear =>
          have hglobal : ((freshMonitors.run ops).step .maybeClear).globalSeed =
              (freshMonitors.run ops).globalSeed := by
            simp only [Monitors.step]
            split_ifs <;> rfl
          exact ⟨⟨i + 1, hnext _ i hi⟩, k, by rw [hglobal, hk]⟩
      | storeExclusive address size =>
          simp only [Monitors.step, Monitors.clear]
          split_ifs
          · exact ⟨⟨i, hi⟩, k + 1, hnext _ k hk⟩
          · exact ⟨⟨i, hi⟩, k, hk⟩

/-! ## Trying again -/

/-- A loop of guest code: an exclusive load, a computation, an exclusive store. -/
structure RetryLoop where
  load : Word
  compute : Core → Core
  store : Word

namespace RetryLoop

def size (l : RetryLoop) : Nat := (storeOpOfSize l.load.getSizeBits).size

def attempt (l : RetryLoop) (m : AccessChecks) (c : Core) : Except (String × Core) Core := do
  let loaded ← ((loadExclusive m l.load).run c).quiet
  ((storeExclusive m l.store).run (l.compute loaded)).quiet

/-- Go back to the load while the store reports a failure, for so many attempts. -/
def run (l : RetryLoop) (m : AccessChecks) : Nat → Core → Option Core
  | 0, _ => none
  | attempts + 1, c =>
      match l.attempt m c with
      | .error _ => none
      | .ok c' =>
          if c'.readWRegister l.store.getRs = 0 then some c' else l.run m attempts c'

/-- Both accesses are of one register, of one size and through one base. -/
structure Matched (l : RetryLoop) : Prop where
  load_exclusive : l.load.isExclusive = true
  load_single : l.load.isPair = false
  load_zero : l.load.getRt ≠ 31
  load_base : l.load.getRt ≠ l.load.getRn
  store_exclusive : l.store.isExclusive = true
  store_single : l.store.isPair = false
  store_base : l.store.getRn = l.load.getRn
  store_size : l.store.getSizeBits = l.load.getSizeBits
  status_zero : l.store.getRs ≠ 31
  status_base : l.store.getRs ≠ l.load.getRn
  status_value : l.store.getRs ≠ l.store.getRt

/-- What an attempt relies on in the states it passes. -/
structure SameLocation (l : RetryLoop) (c d : Core) : Prop where
  memory : d.memory = c.memory
  mteTags : d.mteTags = c.mteTags
  cpuFeatures : d.cpuFeatures = c.cpuFeatures
  base : readBase d l.load.getRn = readBase c l.load.getRn

/-- The computation keeps the location and the monitors, and makes `f` of the loaded value. -/
structure Computes (l : RetryLoop) (f : BitVec (8 * l.size) → BitVec (8 * l.size)) : Prop where
  location : ∀ c, SameLocation l c (l.compute c)
  monitors : ∀ c, monitors (l.compute c) = monitors c
  value : ∀ c, (l.compute c).readRegister l.size l.store.getRt =
    f (c.readRegister l.size l.load.getRt)

def location (l : RetryLoop) (c : Core) : Addr := readBase c l.load.getRn

def loadedValue (l : RetryLoop) (c : Core) : BitVec (8 * l.size) :=
  LeafM.readBytes c.memory (addressUntag (l.location c)) l.size

/-- Neither access can fail but for the monitors. -/
structure Accessible (l : RetryLoop) (m : AccessChecks) (c : Core) : Prop where
  valid : isValidUnalignedAtomicAccess c l.load.getRn (l.location c) l.size = true
  granted : m.grants c.mteTags (l.location c) l.size = true

variable {l : RetryLoop} {m : AccessChecks} {c d e : Core}
  {f : BitVec (8 * l.size) → BitVec (8 * l.size)}

theorem SameLocation.trans (h : SameLocation l c d) (h' : SameLocation l d e) :
    SameLocation l c e where
  memory := h'.memory.trans h.memory
  mteTags := h'.mteTags.trans h.mteTags
  cpuFeatures := h'.cpuFeatures.trans h.cpuFeatures
  base := h'.base.trans h.base

theorem Accessible.of_same (ha : Accessible l m c) (h : SameLocation l c d) :
    Accessible l m d where
  valid := by
    rw [location, h.base, isValidUnalignedAtomicAccess, h.cpuFeatures]
    exact ha.valid
  granted := by
    rw [location, h.base, h.mteTags]
    exact ha.granted

theorem sameLocation_writeTransfer {r : BitVec 5} (hr : r ≠ l.load.getRn) (value : BitVec 64) :
    SameLocation l c (writeTransfer c r value) := by
  by_cases hzero : r = 31
  · rw [writeTransfer, if_pos hzero]
    exact ⟨rfl, rfl, rfl, rfl⟩
  · have hbase : l.load.getRn.toFin ≠ r.toFin := fun h => hr (BitVec.toFin_inj.mp h).symm
    rw [writeTransfer, if_neg hzero]
    exact ⟨rfl, rfl, rfl, if_neg hbase⟩

theorem sameLocation_settleLoad : SameLocation l c (settleLoad l.load (l.location c) c) := by
  cases hw : l.load.isExclusive <;> simp only [settleLoad, hw, if_true, Bool.false_eq_true, if_false]
    <;> exact ⟨rfl, rfl, rfl, rfl⟩

theorem sameLocation_settle (hl : Matched l) (address : Addr) :
    SameLocation l c (settleMonitors l.store address c) := by
  have hask : SameLocation l c (askMonitors c address (exclusiveAccessSize l.store)) := by
    unfold askMonitors
    split_ifs <;> exact ⟨rfl, rfl, rfl, rfl⟩
  have hstatus := hask.trans (sameLocation_writeTransfer hl.status_base
    (if isExclusive c address (exclusiveAccessSize l.store) then 0 else 1))
  rw [settleMonitors, if_pos hl.store_exclusive]
  exact ⟨hstatus.memory, hstatus.mteTags, hstatus.cpuFeatures, hstatus.base⟩

/-- The state after the load of an attempt. -/
def loaded (l : RetryLoop) (c : Core) : Core :=
  writeTransfer (settleLoad l.load (l.location c) c) l.load.getRt ((l.loadedValue c).setWidth 64)

theorem size_le (l : RetryLoop) : l.size ≤ 8 := by
  unfold size storeOpOfSize
  split <;> decide

theorem quiet_load (hl : Matched l) (ha : Accessible l m c) :
    ((loadExclusive m l.load).run c).quiet = .ok (loaded l c) := by
  have hsize := exclusiveAccessSize_single hl.load_single
  exact quiet_loadExclusive hl.load_single (by rw [hsize]; exact ha.valid)
    (by rw [hsize]; exact ha.granted)

theorem sameLocation_loaded (hl : Matched l) : SameLocation l c (loaded l c) :=
  sameLocation_settleLoad.trans (sameLocation_writeTransfer hl.load_base _)

theorem monitors_loaded (hl : Matched l) :
    monitors (loaded l c) = (monitors c).step (.markExclusive (l.location c) l.size) := by
  rw [loaded, monitors_congr (monitorState_writeTransfer _ _ _), monitors_settleLoad, loadOp,
    if_pos hl.load_exclusive, exclusiveAccessSize_single hl.load_single]
  rfl

theorem value_loaded (hl : Matched l) :
    (loaded l c).readRegister l.size l.load.getRt = l.loadedValue c := by
  have hsize := size_le l
  rw [Core.readRegister, loaded, readXRegister_writeTransfer, if_pos ⟨rfl, hl.load_zero⟩]
  apply BitVec.eq_of_getLsbD_eq
  intro i hi
  simp [show i < 64 by omega, hi]

/-- The state in which the store of an attempt asks the monitors. -/
def asks (l : RetryLoop) (c : Core) : Core := l.compute (loaded l c)

theorem sameLocation_asks (hl : Matched l) (hf : Computes l f) : SameLocation l c (l.asks c) :=
  (sameLocation_loaded hl).trans (hf.location _)

theorem monitors_asks (hl : Matched l) (hf : Computes l f) :
    monitors (l.asks c) = (monitors c).step (.markExclusive (l.location c) l.size) := by
  rw [asks, hf.monitors, monitors_loaded hl]

theorem value_asks (hl : Matched l) (hf : Computes l f) :
    (l.asks c).readRegister l.size l.store.getRt = f (l.loadedValue c) := by
  rw [asks, hf.value, value_loaded hl]

theorem attempt_eq (hl : Matched l) (ha : Accessible l m c) :
    l.attempt m c = ((storeExclusive m l.store).run (l.asks c)).quiet := by
  rw [attempt, quiet_load hl ha]
  rfl

theorem store_location (hl : Matched l) (h : SameLocation l c d) :
    readBase d l.store.getRn = l.location c := by
  rw [hl.store_base, h.base, location]

theorem store_accessSize (hl : Matched l) : exclusiveAccessSize l.store = l.size := by
  rw [exclusiveAccessSize_single hl.store_single, hl.store_size, size]

theorem isExclusive_asks (hl : Matched l) (hf : Computes l f) :
    isExclusive (l.asks c) (readBase (l.asks c) l.store.getRn) (exclusiveAccessSize l.store) =
      (c.globalMonitorSeed.toNat % 8 != 0) := by
  rw [store_location hl (sameLocation_asks hl hf), store_accessSize hl, isExclusive_eq,
    monitors_asks hl hf]
  simp [Monitors.grants, Monitors.marked, Monitors.step, monitors]

theorem status_settle (hl : Matched l) (address : Addr) :
    (settleMonitors l.store address c).readWRegister l.store.getRs =
      if isExclusive c address (exclusiveAccessSize l.store) then 0 else 1 := by
  rw [settleMonitors, if_pos hl.store_exclusive, Core.readWRegister]
  have hcleared (d : Core) :
      (clearLocalMonitor d).readXRegister l.store.getRs = d.readXRegister l.store.getRs := rfl
  rw [hcleared, readXRegister_writeTransfer, if_pos ⟨rfl, hl.status_zero⟩]
  split_ifs <;> rfl

theorem seed_settle (hl : Matched l) (hf : Computes l f) :
    (settleMonitors l.store (readBase (l.asks c) l.store.getRn) (l.asks c)).globalMonitorSeed =
      nextSeed c.globalMonitorSeed := by
  have hsettle := congrArg Monitors.globalSeed
    (monitors_settle l.store (readBase (l.asks c) l.store.getRn) (l.asks c))
  rw [store_location hl (sameLocation_asks hl hf), monitors_asks hl hf, storeOp,
    if_pos hl.store_exclusive, store_accessSize hl] at hsettle
  rw [store_location hl (sameLocation_asks hl hf)]
  simpa [Monitors.step, Monitors.marked, Monitors.clear, monitors] using hsettle

theorem store_accessible (hl : Matched l) (hf : Computes l f) (ha : Accessible l m c) :
    isValidUnalignedAtomicAccess (l.asks c) l.store.getRn (readBase (l.asks c) l.store.getRn)
        (exclusiveAccessSize l.store) = true ∧
      m.grants (l.asks c).mteTags (readBase (l.asks c) l.store.getRn)
        (exclusiveAccessSize l.store) = true := by
  have hasks := ha.of_same (sameLocation_asks hl hf)
  rw [hl.store_base, store_accessSize hl]
  exact ⟨hasks.valid, hasks.granted⟩

theorem attempt_refused (hl : Matched l) (hf : Computes l f) (ha : Accessible l m c)
    (hseed : c.globalMonitorSeed.toNat % 8 = 0) :
    ∃ c', l.attempt m c = .ok c' ∧ c'.readWRegister l.store.getRs = 1 ∧ SameLocation l c c' ∧
      c'.globalMonitorSeed = nextSeed c.globalMonitorSeed := by
  have hrefused := isExclusive_asks (c := c) hl hf
  rw [hseed] at hrefused
  refine ⟨_, (attempt_eq hl ha).trans (quiet_storeExclusive_refused hl.store_exclusive
    (store_accessible hl hf ha).1 hrefused), ?_, ?_, seed_settle hl hf⟩
  · rw [status_settle hl, hrefused]
    rfl
  · exact (sameLocation_asks hl hf).trans (sameLocation_settle hl _)

theorem attempt_made (hl : Matched l) (hf : Computes l f) (ha : Accessible l m c)
    (hseed : c.globalMonitorSeed.toNat % 8 ≠ 0) :
    ∃ c', l.attempt m c = .ok c' ∧ c'.readWRegister l.store.getRs = 0 ∧
      c'.memory = storeBytes c.memory (addressUntag (l.location c))
        ((f (l.loadedValue c)).setWidth 128) l.size := by
  have hmade := isExclusive_asks (c := c) hl hf
  rw [(bne_iff_ne).mpr hseed] at hmade
  have hsame := sameLocation_asks (c := c) hl hf
  have hstore := quiet_storeExclusive hl.store_single (store_accessible hl hf ha).1
    (store_accessible hl hf ha).2 hmade
  have hsettle := sameLocation_settle (c := l.asks c) hl (readBase (l.asks c) l.store.getRn)
  refine ⟨_, (attempt_eq hl ha).trans hstore, ?_, ?_⟩
  · have hstatus := status_settle (c := l.asks c) hl (readBase (l.asks c) l.store.getRn)
    rw [hmade, if_pos rfl] at hstatus
    exact hstatus
  · have hvalue : (settleMonitors l.store (readBase (l.asks c) l.store.getRn)
        (l.asks c)).readRegister l.size l.store.getRt = f (l.loadedValue c) := by
      rw [← value_asks hl hf, Core.readRegister, Core.readRegister, settleMonitors,
        if_pos hl.store_exclusive]
      have hcleared (d : Core) :
          (clearLocalMonitor d).readXRegister l.store.getRt = d.readXRegister l.store.getRt := rfl
      have hother : ¬(l.store.getRt = l.store.getRs ∧ l.store.getRs ≠ 31) :=
        fun h => hl.status_value h.1.symm
      rw [hcleared, readXRegister_writeTransfer, if_neg hother]
      unfold askMonitors
      split_ifs <;> rfl
    rw [hl.store_size, ← size, Core.writeMemory, hvalue, store_location hl hsame]
    rw [store_location hl hsame] at hsettle
    rw [hsettle.memory, hsame.memory]

theorem run_passes (hl : Matched l) (hf : Computes l f) {j : Nat} :
    ∀ {c : Core} {k attempts : Nat}, Accessible l m c →
      c.globalMonitorSeed.toNat = seedStep^[k] 0x87654321 →
      seedStep^[k + j] 0x87654321 % 8 ≠ 0 → j < attempts →
      ∃ c', l.run m attempts c = some c' ∧
        c'.memory = storeBytes c.memory (addressUntag (l.location c))
          ((f (l.loadedValue c)).setWidth 128) l.size := by
  induction j with
  | zero =>
      intro c k attempts ha hk hpass hattempts
      obtain ⟨n, rfl⟩ := Nat.exists_eq_add_of_lt hattempts
      rw [Nat.add_zero, ← hk] at hpass
      obtain ⟨c', hc', hstatus, hmem⟩ := attempt_made hl hf ha hpass
      exact ⟨c', by simp [run, hc', hstatus], hmem⟩
  | succ j ih =>
      intro c k attempts ha hk hpass hattempts
      cases attempts with
      | zero => omega
      | succ attempts =>
          by_cases hseed : c.globalMonitorSeed.toNat % 8 = 0
          · obtain ⟨d, hd, hstatus, hsame, hnext⟩ := attempt_refused hl hf ha hseed
            have hdk : d.globalMonitorSeed.toNat = seedStep^[k + 1] 0x87654321 := by
              rw [hnext, nextSeed_toNat, hk, Function.iterate_succ_apply']
            rw [show k + (j + 1) = k + 1 + j by omega] at hpass
            obtain ⟨c', hc', hmem⟩ := ih (ha.of_same hsame) hdk hpass
              (Nat.lt_of_succ_lt_succ hattempts)
            refine ⟨c', by simp [run, hd, hstatus, hc'], ?_⟩
            rw [hmem, location, hsame.base, hsame.memory, loadedValue, location, hsame.base,
              hsame.memory]
            rfl
          · obtain ⟨c', hc', hstatus, hmem⟩ := attempt_made hl hf ha hseed
            exact ⟨c', by simp [run, hc', hstatus], hmem⟩

end RetryLoop

/--
A retry loop of guest code updates its location: whatever the guest did before,
at most 33 stores fail, and what the 34th or an earlier one stores is made of
the value that was there.
-/
theorem retryLoop_updates {ops : List MonitorOp} {c : Core} (hc : GuestReaches ops c)
    {l : RetryLoop} (hl : l.Matched) {f : BitVec (8 * l.size) → BitVec (8 * l.size)}
    (hf : l.Computes f) {m : AccessChecks} (ha : l.Accessible m c) :
    ∃ c', l.run m 34 c = some c' ∧
      c'.memory = storeBytes c.memory (addressUntag (l.location c))
        ((f (l.loadedValue c)).setWidth 128) l.size := by
  obtain ⟨-, k, hk⟩ := run_seeds ops
  rw [← hc.monitors] at hk
  obtain ⟨j, hj, hpass⟩ := seeds_pass k
  exact RetryLoop.run_passes hl hf ha hk hpass (by omega)

/-- LDXR x1, [x0]; ADD x3, x1, #1; STXR w2, x3, [x0]. -/
def incrementLoop : RetryLoop where
  load := 0xc85f7c01
  compute := fun c => writeTransfer c 3 (c.readXRegister 1 + 1)
  store := 0xc8027c03

theorem incrementLoop_matched : incrementLoop.Matched := by
  constructor <;> decide

theorem incrementLoop_computes :
    incrementLoop.Computes fun v => v + 1 where
  location _ := ⟨rfl, rfl, rfl, rfl⟩
  monitors _ := rfl
  value c := by
    change ((c.readXRegister 1 + 1).setWidth 64) = (c.readXRegister 1).setWidth 64 + 1
    rw [BitVec.setWidth_eq, BitVec.setWidth_eq]

theorem incrementLoop_updates :
    ∃ c', incrementLoop.run .off 34
        ((resetState (fun _ => 0) 0x8000).writeRegister 0 0x1000) = some c' ∧
      c'.memory = storeBytes (fun _ => 0) 0x1000 1 8 := by
  have hreaches : GuestReaches [] ((resetState (fun _ => 0) 0x8000).writeRegister 0 0x1000) :=
    .quiet (.start (fun _ => 0) 0x8000) rfl
  have hupdates := retryLoop_updates hreaches incrementLoop_matched incrementLoop_computes
    (m := .off) ⟨by decide, by decide⟩
  exact hupdates

end GabyVm.Engine
