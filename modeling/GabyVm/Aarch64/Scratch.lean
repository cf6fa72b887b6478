import GabyVm.Aarch64.Footprint

/-!
# Scratch state

The interpreter keeps more of the guest than registers and memory.  Of that
scratch state an instruction of base code reads the form of the instruction
before it, the guarded control stack, and the switch and tags of memory
tagging.  Two states with the same registers and memory take the same branches
where the comparisons of their stacks come out the same, and run a leaf alike
where it does not depend on what differs in their tagging.
-/

namespace GabyVm.Aarch64

/-! ## Scratch state -/

/-- The part of the interpreter state that no register file holds. -/
structure Scratch where
  pregisters : Fin 16 → BitVec 256
  ffr : BitVec 256
  mteTags : Addr → Option (BitVec 4)
  mteActive : Bool
  lastInstr : Addr
  formHash : FormHash
  gcs : List Addr
  localMonitor : SimExclusiveLocalMonitor
  globalMonitorSeed : BitVec 32
  randGen : BitVec 64
  cpuFeatures : CPUFeatures
  savedCpuFeatures : List CPUFeatures

/-- What base code reads of the scratch state. -/
structure Kept where
  formHash : FormHash
  gcs : List Addr
  tagging : Tagging

namespace Core

def scratch (c : Core) : Scratch where
  pregisters := c.pregisters
  ffr := c.ffr
  mteTags := c.mteTags
  mteActive := c.mteActive
  lastInstr := c.lastInstr
  formHash := c.formHash
  gcs := c.gcs
  localMonitor := c.localMonitor
  globalMonitorSeed := c.globalMonitorSeed
  randGen := c.randGen
  cpuFeatures := c.cpuFeatures
  savedCpuFeatures := c.savedCpuFeatures

/-- The same guest with other scratch state. -/
def swap (c : Core) (s : Scratch) : Core :=
  { c with
    pregisters := s.pregisters
    ffr := s.ffr
    mteTags := s.mteTags
    mteActive := s.mteActive
    lastInstr := s.lastInstr
    formHash := s.formHash
    gcs := s.gcs
    localMonitor := s.localMonitor
    globalMonitorSeed := s.globalMonitorSeed
    randGen := s.randGen
    cpuFeatures := s.cpuFeatures
    savedCpuFeatures := s.savedCpuFeatures }

def withGcs (c : Core) (stack : List Addr) : Core := { c with gcs := stack }

def kept (c : Core) : Kept := ⟨c.formHash, c.gcs, c.tagging⟩

end Core

/-- The same guest, in a step of one form; the second one has kept `k`. -/
structure SameVisit (k : Kept) (c c' : Core) : Prop where
  guest : c' = c.swap c'.scratch
  form : c.formHash = k.formHash
  kept : c'.kept = k

theorem SameVisit.trans {k k' : Kept} {c c' c'' : Core} (h : SameVisit k c c')
    (h' : SameVisit k' c' c'') : SameVisit k' c c'' where
  guest := by
    have hguest := h'.guest
    rw [h.guest] at hguest
    exact hguest
  form := by
    have hform : c'.formHash = k.formHash := congrArg Kept.formHash h.kept
    rw [h.form, ← hform, h'.form]
  kept := h'.kept

/-! ## Branches -/

/-- The stack that is left when a return to `addr` has been compared with its top. -/
def checkedGcs (c : Core) (addr : Addr) (stack : List Addr) : Option (List Addr) :=
  (checkGcs (c.withGcs stack) addr).map (·.gcs)

/-- What the instruction makes of another guarded control stack. -/
def gcsAfter (v : Visitor) (w : Word) (c : Core) (stack : List Addr) : List Addr :=
  if visitorLinks v w then c.getNextInstruction :: stack
  else if visitorReturns v w then (checkedGcs c (registerTarget c w) stack).getD stack
  else stack

/-- Two leaves that store the same, and end with the same guest or both abort. -/
inductive LeafAlike (k : Kept) : LeafProg → LeafProg → Prop where
  | done {c c' : Core} (h : SameVisit k c c') : LeafAlike k (.done c) (.done c')
  | abort {message message' : String} {c c' : Core} :
      LeafAlike k (.abort message c) (.abort message' c')
  | store {event : MemoryWriteEvent} {c c' : Core} {next next' : Core → LeafProg}
      (h : SameVisit k c c') (hnext : LeafAlike k (next c) (next' c')) :
      LeafAlike k (.store event c next) (.store event c' next')

theorem LeafAlike.trans {k k' : Kept} {p q r : LeafProg} (h : LeafAlike k p q)
    (h' : LeafAlike k' q r) : LeafAlike k' p r := by
  induction h generalizing r with
  | done h =>
      cases h' with
      | done h' => exact .done (h.trans h')
  | abort =>
      cases h' with
      | abort => exact .abort
  | store h _ ih =>
      cases h' with
      | store h' hnext' => exact .store (h.trans h') (ih hnext')

/-- With the same tagging, the leaf depends on nothing but what register file and memory hold. -/
def ReadsSnapshot (run : Leaf) : Prop :=
  ∀ word c c' k, SameVisit k c c' → c.tagging = k.tagging →
    LeafAlike k (run word c) (run word c')

/-- The leaf depends on nothing in which the state's tagging differs from `t`. -/
def IgnoresTagging (run : Leaf) (word : Word) (c : Core) (t : Tagging) : Prop :=
  ∀ u : Tagging, u.Between c.tagging t →
    LeafAlike (c.withTagging u).kept (run word c) (run word (c.withTagging u))

/-- Where there is no difference there is none to depend on. -/
theorem ReadsSnapshot.ignores_same {run : Leaf} (h : ReadsSnapshot run) (word : Word) (c : Core) :
    IgnoresTagging run word c c.tagging := by
  intro u hu
  obtain rfl : u = c.tagging := by
    cases u
    simp only [Core.tagging, Tagging.mk.injEq]
    exact ⟨hu.active rfl, funext fun key => hu.tags key rfl⟩
  exact h word c c c.kept ⟨rfl, rfl, rfl⟩ rfl

/-! ### Stores -/

section Stores

variable {m : AccessChecks} {op : StoreOp} {w : Word} {offset : Addr} {mode : AddrMode}
variable {k : Kept} {c c' : Core}

theorem SameVisit.map (h : SameVisit k c c') (f : Core → Core)
    (hf : ∀ d s, f (d.swap s) = (f d).swap (f (d.swap s)).scratch)
    (hkept : ∀ d, (f d).kept = d.kept) : SameVisit k (f c) (f c') where
  guest := by
    rw [h.guest]
    exact hf c c'.scratch
  form := (congrArg Kept.formHash (hkept c)).trans h.form
  kept := (hkept c').trans h.kept

theorem addressModeHelper_alike {rn : BitVec 5} {next : Addr → Core → LeafProg}
    (h : SameVisit k c c')
    (hnext : ∀ d d', SameVisit k d d' → d.tagging = c.tagging → d.pc = c.pc →
      LeafAlike k (next (addressMode c rn offset mode) d)
        (next (addressMode c rn offset mode) d')) :
    LeafAlike k (addressModeHelper m rn offset mode c next)
      (addressModeHelper m rn offset mode c' next) := by
  have hwritten := h.map (fun d => writeBase d rn (readBase c rn + offset)) (fun _ _ => rfl)
    fun _ => rfl
  have hsame := h
  obtain ⟨s, rfl⟩ : ∃ s, c' = c.swap s := ⟨_, h.guest⟩
  have hbase : readBase (c.swap s) rn = readBase c rn := rfl
  have haddress : addressMode (c.swap s) rn offset mode = addressMode c rn offset mode := rfl
  simp only [addressModeHelper, LeafM.bind_apply, LeafM.get_apply, LeafM.check, hbase, haddress]
  split_ifs
  · cases mode with
    | offset => exact hnext _ _ hsame rfl rfl
    | preIndex => exact hnext _ _ hwritten rfl rfl
    | postIndex => exact hnext _ _ hwritten rfl rfl
  · exact .abort
  · exact .abort

/-- A single store runs alike where its check of the address comes out the same. -/
theorem loadStoreHelper_alike (h : SameVisit k c c')
    (hverdict : m.verdict k.tagging.tags "Attempt to write to stack guard region" c.pc
      (addressMode c w.getRn offset mode) op.size =
        m.verdict c.mteTags "Attempt to write to stack guard region" c.pc
          (addressMode c w.getRn offset mode) op.size) :
    LeafAlike k ((loadStoreHelper m op w offset mode).run c)
      ((loadStoreHelper m op w offset mode).run c') := by
  refine addressModeHelper_alike h ?_
  intro d d' hd htagging hpc
  have hcleared (x x' : Core) (hx : SameVisit k x x') :
      SameVisit k (maybeClearLocalMonitor x) (maybeClearLocalMonitor x') := by
    obtain ⟨monitor, hmonitor⟩ := maybeClearLocalMonitor_frame x
    obtain ⟨monitor', hmonitor'⟩ := maybeClearLocalMonitor_frame x'
    rw [hmonitor, hmonitor']
    refine ⟨?_, hx.form, hx.kept⟩
    rw [hx.guest]
    rfl
  obtain ⟨s, rfl⟩ : ∃ s, d' = d.swap s := ⟨_, hd.guest⟩
  have hvalue : op.value (d.swap s) w.getRt = op.value d w.getRt := rfl
  have htags : s.mteTags = k.tagging.tags := congrArg (fun k => k.tagging.tags) hd.kept
  have hown : d.mteTags = c.mteTags := congrArg Tagging.tags htagging
  have hwrite : m.write (d.swap s) (d.swap s).pc (addressMode c w.getRn offset mode) op.size =
      m.write d d.pc (addressMode c w.getRn offset mode) op.size := by
    have hverdict' := hverdict
    rw [← htags, ← hpc, ← hown] at hverdict'
    exact hverdict'
  simp only [storeRegister, LeafM.bind_apply, LeafM.get_apply, LeafM.memWrite, hvalue, hwrite]
  cases m.write d d.pc (addressMode c w.getRn offset mode) op.size with
  | granted =>
      have hstored : SameVisit k
          (d.writeMemory (addressMode c w.getRn offset mode)
            ((op.value d w.getRt).setWidth 128) op.size)
          ((d.swap s).writeMemory (addressMode c w.getRn offset mode)
            ((op.value d w.getRt).setWidth 128) op.size) :=
        ⟨rfl, hd.form, hd.kept⟩
      exact .store hstored (.done (hcleared _ _ hstored))
  | failed => exact .done hd
  | aborts message => exact .abort

theorem readsSnapshot_loadStore (m : AccessChecks) (op : StoreOp) (v : LoadStoreVisitor) :
    ReadsSnapshot fun w c => (loadStoreHelper (m.under c) op w (v.offset w c) v.mode).run c := by
  intro word c c' k h htagging
  have hactive : c'.mteActive = c.mteActive := by
    rw [show c'.mteActive = k.tagging.active from congrArg (fun k => k.tagging.active) h.kept]
    exact (congrArg Tagging.active htagging).symm
  have hoffset : v.offset word c' = v.offset word c := by
    rw [h.guest]
    rfl
  have hunder : m.under c' = m.under c := by rw [AccessChecks.under, AccessChecks.under, hactive]
  simp only [hoffset, hunder]
  exact loadStoreHelper_alike h (by rw [← htagging]; rfl)

theorem ignoresTagging_loadStore (m : AccessChecks) (op : StoreOp) (v : LoadStoreVisitor)
    {t : Tagging} (hoff : c.mteActive = false) (hoff' : t.active = false) :
    IgnoresTagging (fun w c => (loadStoreHelper (m.under c) op w (v.offset w c) v.mode).run c)
      w c t := by
  intro u hu
  have hactive : u.active = false := (hu.active (hoff.trans hoff'.symm)).trans hoff
  have hoffset : v.offset w (c.withTagging u) = v.offset w c := rfl
  have hunder : m.under (c.withTagging u) = m.under c := by
    rw [AccessChecks.under, AccessChecks.under, hoff]
    exact congrArg (fun active => { m with mteActive := active }) hactive
  simp only [hoffset, hunder]
  refine loadStoreHelper_alike ⟨rfl, rfl, rfl⟩ ?_
  simp only [AccessChecks.verdict, AccessChecks.under, hoff, Bool.false_and, Bool.false_eq_true,
    if_false]

end Stores

end GabyVm.Aarch64
