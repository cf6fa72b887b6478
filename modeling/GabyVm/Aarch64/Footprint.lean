import GabyVm.Aarch64.Hidden
import GabyVm.Aarch64.ScalarStores

/-!
# The memory an instruction touches

The guest addresses of every simulator are host addresses, so simulators of
one process can reach each other's memory.  Here an instruction is run on two
states that differ in foreign memory only: branches do not see the difference,
and a leaf that touches no foreign byte stores the same in both.
-/

namespace GabyVm.Aarch64

/-! ## States that differ in foreign memory -/

abbrev Region := Addr → Prop

def AgreeOutside (foreign : Region) (mem mem' : Memory) : Prop :=
  ∀ a, ¬foreign a → mem' a = mem a

theorem AgreeOutside.refl (foreign : Region) (mem : Memory) : AgreeOutside foreign mem mem :=
  fun _ _ => rfl

theorem AgreeOutside.trans {foreign : Region} {mem mem' mem'' : Memory}
    (h : AgreeOutside foreign mem mem') (h' : AgreeOutside foreign mem' mem'') :
    AgreeOutside foreign mem mem'' :=
  fun a ha => (h' a ha).trans (h a ha)

/-- The four bytes from `a` on are none of the region. -/
def Fetched (foreign : Region) (a : Addr) : Prop :=
  ∀ k : Nat, k < 4 → ¬foreign (a + BitVec.ofNat 64 k)

theorem Fetched.readWord {foreign : Region} {a : Addr} (h : Fetched foreign a)
    {mem mem' : Memory} (hmem : AgreeOutside foreign mem mem') :
    readWord mem' a = readWord mem a :=
  readWord_congr fun k hk => hmem _ (h k hk)

namespace Core

def withMemory (c : Core) (mem : Memory) : Core := { c with memory := mem }

@[simp] theorem withMemory_memory (c : Core) (mem : Memory) : (c.withMemory mem).memory = mem := rfl

@[simp] theorem withMemory_pc (c : Core) (mem : Memory) : (c.withMemory mem).pc = c.pc := rfl

end Core

/-- The second state differs in foreign memory only. -/
def SameCore (foreign : Region) (c c' : Core) : Prop :=
  ∃ mem, AgreeOutside foreign c.memory mem ∧ c' = c.withMemory mem

theorem SameCore.instr {foreign : Region} {c c' : Core} (h : SameCore foreign c c')
    (hfetch : Fetched foreign c.pc) : c'.instr = c.instr := by
  obtain ⟨mem, hmem, rfl⟩ := h
  exact hfetch.readWord hmem

/-- What does not look at memory keeps the difference. -/
theorem SameCore.map {foreign : Region} {c c' : Core} (h : SameCore foreign c c') (f : Core → Core)
    (hf : ∀ c mem, f (c.withMemory mem) = (f c).withMemory mem)
    (hmem : ∀ c, (f c).memory = c.memory) : SameCore foreign (f c) (f c') := by
  obtain ⟨mem, hagree, rfl⟩ := h
  exact ⟨mem, by rwa [hmem], hf c mem⟩

/-! ## Branches -/

namespace BranchStep

def withMemory (step : BranchStep) (mem : Memory) : BranchStep :=
  match step with
  | .fallThrough c => .fallThrough (c.withMemory mem)
  | .commit target c => .commit target (c.withMemory mem)
  | .abort reason c => .abort reason (c.withMemory mem)

end BranchStep

theorem branchStep_withMemory (E : Env) (v : Visitor) (w : Word) (c : Core) (mem : Memory) :
    v.branchStep E w (c.withMemory mem) = (v.branchStep E w c).map (·.withMemory mem) := by
  have haside : c.withMemory mem = c.withAside ⟨mem, c.hidden⟩ := rfl
  rw [haside, branchStep_withAside]
  cases hstep : v.branchStep E w c with
  | none => rfl
  | some step =>
      rw [← branchStep_hidden hstep]
      cases step <;> rfl

/-! ## Leaves -/

/--
Two leaves that store the same, are in states that differ in foreign memory
only, and end having written nothing but own memory since it was `mem`.
-/
inductive LeafTouches (own foreign : Region) (mem : Memory) : LeafProg → LeafProg → Prop where
  | done {c c' : Core} (h : SameCore foreign c c') (hown : AgreeOutside own mem c.memory) :
      LeafTouches own foreign mem (.done c) (.done c')
  | abort {message : String} {c c' : Core} (h : SameCore foreign c c') :
      LeafTouches own foreign mem (.abort message c) (.abort message c')
  | store {event : MemoryWriteEvent} {c c' : Core} {next next' : Core → LeafProg}
      (h : SameCore foreign c c')
      (hnext : LeafTouches own foreign mem (next c) (next' c')) :
      LeafTouches own foreign mem (.store event c next) (.store event c' next')

section Stores

variable {own foreign : Region} {mem : Memory} {m : AccessChecks} {c c' : Core}

theorem AgreeOutside.storeBytes {mem' : Memory} (h : AgreeOutside foreign mem mem') (a : Addr)
    (value : BitVec 128) (size : Nat) :
    AgreeOutside foreign (storeBytes mem a value size) (storeBytes mem' a value size) := by
  intro x hx
  simp only [Aarch64.storeBytes, h x hx]

theorem agreeOutside_storeBytes {a : Addr} {size : Nat}
    (hown : ∀ x, (x - a).toNat < size → own x) (mem : Memory) (value : BitVec 128) :
    AgreeOutside own mem (storeBytes mem a value size) := by
  intro x hx
  exact if_neg fun hin => hx (hown x hin)

theorem addressModeHelper_touches {rn : BitVec 5} {offset : Addr} {mode : AddrMode}
    {k : Addr → Core → LeafProg} (h : SameCore foreign c c')
    (hnext : ∀ d d', SameCore foreign d d' → d.memory = c.memory →
      LeafTouches own foreign mem (k (addressMode c rn offset mode) d)
        (k (addressMode c rn offset mode) d')) :
    LeafTouches own foreign mem (addressModeHelper m rn offset mode c k)
      (addressModeHelper m rn offset mode c' k) := by
  have hwritten := h.map (fun d => writeBase d rn (readBase c rn + offset)) (fun _ _ => rfl)
    fun _ => rfl
  obtain ⟨mem', hmem, rfl⟩ := h
  have hbase : readBase (c.withMemory mem') rn = readBase c rn := rfl
  have haddress : addressMode (c.withMemory mem') rn offset mode =
    addressMode c rn offset mode := rfl
  have hsame : SameCore foreign c (c.withMemory mem') := ⟨mem', hmem, rfl⟩
  simp only [addressModeHelper, LeafM.bind_apply, LeafM.get_apply, LeafM.check, hbase, haddress]
  split_ifs
  · cases mode with
    | offset => exact hnext _ _ hsame rfl
    | preIndex => exact hnext _ _ hwritten rfl
    | postIndex => exact hnext _ _ hwritten rfl
  · exact .abort hsame
  · exact .abort hsame

theorem storeRegister_touches {op : StoreOp} {a : Addr} {rt : BitVec 5} {k : Unit → Core → LeafProg}
    (h : SameCore foreign c c') (hmem : AgreeOutside own mem c.memory)
    (hown : ∀ x, (x - addressUntag a).toNat < op.size → own x)
    (hnext : ∀ d d', SameCore foreign d d' → AgreeOutside own mem d.memory →
      LeafTouches own foreign mem (k () d) (k () d')) :
    LeafTouches own foreign mem (storeRegister m op a rt c k) (storeRegister m op a rt c' k) := by
  obtain ⟨mem', hagree, rfl⟩ := h
  have hvalue : op.value (c.withMemory mem') rt = op.value c rt := rfl
  have hverdict (size : Nat) : m.write (c.withMemory mem') (c.withMemory mem').pc a size =
    m.write c c.pc a size := rfl
  have hsame : SameCore foreign c (c.withMemory mem') := ⟨mem', hagree, rfl⟩
  simp only [storeRegister, LeafM.bind_apply, LeafM.get_apply, LeafM.memWrite, hvalue, hverdict]
  cases m.write c c.pc a op.size with
  | granted =>
      have hstored : SameCore foreign
          (c.writeMemory a ((op.value c rt).setWidth 128) op.size)
          ((c.withMemory mem').writeMemory a ((op.value c rt).setWidth 128) op.size) :=
        ⟨_, hagree.storeBytes _ _ _, rfl⟩
      exact .store hstored (hnext _ _ hstored (hmem.trans (agreeOutside_storeBytes hown _ _)))
  | failed => exact .done hsame hmem
  | aborts message => exact .abort hsame

theorem loadStoreHelper_touches {op : StoreOp} {w : Word} {offset : Addr} {mode : AddrMode}
    (h : SameCore foreign c c')
    (hown : ∀ x, (x - addressUntag (addressMode c w.getRn offset mode)).toNat < op.size →
      own x) :
    LeafTouches own foreign c.memory ((loadStoreHelper m op w offset mode).run c)
      ((loadStoreHelper m op w offset mode).run c') := by
  refine addressModeHelper_touches h ?_
  intro d d' hd hdmem
  refine storeRegister_touches hd (hdmem ▸ AgreeOutside.refl own d.memory) hown ?_
  intro e e' he hemem
  have hframe (x : Core) : (maybeClearLocalMonitor x).memory = x.memory := by
    obtain ⟨_, hx⟩ := maybeClearLocalMonitor_frame x
    rw [hx]
  have hcleared := he.map maybeClearLocalMonitor (fun x mem' => ?_) hframe
  · exact .done hcleared (hframe e ▸ hemem)
  · have hmonitor : (x.withMemory mem').localMonitor = x.localMonitor := rfl
    simp only [maybeClearLocalMonitor, hmonitor]
    split_ifs <;> rfl

end Stores

end GabyVm.Aarch64
