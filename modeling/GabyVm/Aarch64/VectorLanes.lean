import GabyVm.Aarch64.QuietLeaves
import GabyVm.Aarch64.RegisterLeaves
import GabyVm.Foundation.RoundCiphers

/-!
# Lanes of a vector register

An instruction on lanes reads its sources into arrays, clears the part of the
destination above the result and writes the result lane by lane.
-/

namespace GabyVm.Aarch64

open GabyVm.Foundation

namespace SimVRegister

def lane (r : SimVRegister) (width i : Nat) : BitVec width := r.value.extractLsb' (width * i) width

/-- The first `count` lanes, written one after the other. -/
def setLanes {width : Nat} (r : SimVRegister) : (count : Nat) → (Nat → BitVec width) → SimVRegister
  | 0, _ => r
  | count + 1, f => (r.setLanes count f).insert (width * count) (f count)

/-- `SetUintArray` on a format of as many lanes. -/
def setUintArray {width : Nat} (r : SimVRegister) (count : Nat) (f : Nat → BitVec width) :
    SimVRegister :=
  (r.clearTail (width * count / 8)).setLanes count f

theorem setLanes_getLsbD {width : Nat} (r : SimVRegister) {count : Nat} (f : Nat → BitVec width)
    (hcount : width * count ≤ 2048) {i k : Nat} (hk : k < width) (hbit : width * i + k < 2048) :
    (r.setLanes count f).value.getLsbD (width * i + k) =
      if i < count then (f i).getLsbD k else r.value.getLsbD (width * i + k) := by
  induction count with
  | zero => rfl
  | succ count ih =>
      have hsucc : width * (count + 1) = width * count + width := Nat.mul_succ width count
      rw [setLanes, insert_getLsbD _ _ hbit, ih (by omega)]
      rcases Nat.lt_trichotomy i count with h | rfl | h
      · have hle := Nat.mul_le_mul_left width (show i + 1 ≤ count by omega)
        rw [Nat.mul_succ] at hle
        rw [if_neg (by omega), if_pos h, if_pos (by omega)]
      · rw [if_pos (by omega), if_pos (by omega), Nat.add_sub_cancel_left]
      · have hle := Nat.mul_le_mul_left width (show count + 1 ≤ i by omega)
        rw [if_neg (by omega), if_neg (by omega), if_neg (by omega)]

theorem lane_setUintArray {width : Nat} (r : SimVRegister) {count : Nat} (f : Nat → BitVec width)
    (hcount : width * count ≤ 2048) {i : Nat} (hi : i < count) :
    (r.setUintArray count f).lane width i = f i := by
  have hle := Nat.mul_le_mul_left width (show i + 1 ≤ count by omega)
  rw [Nat.mul_succ] at hle
  apply BitVec.eq_of_getLsbD_eq
  intro k hk
  rw [lane, BitVec.getLsbD_extractLsb', setUintArray, setLanes_getLsbD _ f hcount hk (by omega),
    if_pos hi]
  simp [hk]

end SimVRegister

/-! ## Words in 64 bits -/

/-- `RotateRight`; the rotation of `ShiftOperand` leaves the last mask to its caller. -/
def rotateRightMasked (value : BitVec 64) (rotate width : Nat) : BitVec 64 :=
  rotateRight value rotate width &&& (BitVec.allOnes 64 >>> (64 - width))

def rotateLeftMasked (value : BitVec 64) (rotate width : Nat) : BitVec 64 :=
  rotateRightMasked value (width - rotate) width

/-- No bit is set above the low 32. -/
def Narrow (x : BitVec 64) : Prop := ∀ i, 32 ≤ i → x.getLsbD i = false

theorem Narrow.xor {x y : BitVec 64} (hx : Narrow x) (hy : Narrow y) : Narrow (x ^^^ y) := by
  intro i hi
  rw [BitVec.getLsbD_xor, hx i hi, hy i hi, Bool.xor_false]

theorem narrow_setWidth (x : BitVec 32) : Narrow (x.setWidth 64) := by
  intro i hi
  rw [BitVec.getLsbD_setWidth, BitVec.getLsbD_of_ge x i hi, Bool.and_false]

theorem Narrow.setWidth {x : BitVec 64} (hx : Narrow x) : (x.setWidth 32).setWidth 64 = x := by
  apply BitVec.eq_of_getLsbD_eq
  intro i hi
  rw [BitVec.getLsbD_setWidth, BitVec.getLsbD_setWidth]
  by_cases hlow : i < 32
  · simp [hi, hlow]
  · simp [hlow, hx i (by omega)]

theorem narrow_rotateRight (x : BitVec 64) (rotate : Nat) :
    Narrow (rotateRightMasked x rotate 32) := by
  intro i hi
  have hmask : (BitVec.allOnes 64 >>> (64 - 32)).getLsbD i = false := by
    rw [BitVec.getLsbD_ushiftRight, BitVec.getLsbD_of_ge _ _ (by omega)]
  rw [rotateRightMasked, BitVec.getLsbD_and, hmask, Bool.and_false]

def SimVRegister.words (r : SimVRegister) : Window (BitVec 64) :=
  ⟨(r.lane 32 0).setWidth 64, (r.lane 32 1).setWidth 64, (r.lane 32 2).setWidth 64,
    (r.lane 32 3).setWidth 64⟩

def SimVRegister.wordList (r : SimVRegister) : List (BitVec 64) :=
  (List.range 4).map fun i => (r.lane 32 i).setWidth 64

structure NarrowWindow (x : Window (BitVec 64)) : Prop where
  first : Narrow x.first
  second : Narrow x.second
  third : Narrow x.third
  fourth : Narrow x.fourth

theorem narrowWindow_words (r : SimVRegister) : NarrowWindow r.words :=
  ⟨narrow_setWidth _, narrow_setWidth _, narrow_setWidth _, narrow_setWidth _⟩

theorem words_setUintArray (r : SimVRegister) {x : Window (BitVec 64)} (h : NarrowWindow x) :
    (r.setUintArray 4 fun i => (x.get i).setWidth 32).words = x := by
  have hlane (i : Nat) (hi : i < 4) := SimVRegister.lane_setUintArray r
    (fun i => (x.get i).setWidth 32) (show 32 * 4 ≤ 2048 by omega) hi
  rw [SimVRegister.words, hlane 0 (by omega), hlane 1 (by omega), hlane 2 (by omega),
    hlane 3 (by omega)]
  simp only [Window.get, h.first.setWidth, h.second.setWidth, h.third.setWidth,
    h.fourth.setWidth]

/-! ## Programs -/

/-- An instruction as the decoder hands it to its visitor. -/
structure Visit where
  form : String
  leaf : Leaf
  word : Word

/-- The visitor of one instruction, with the hash of its form. -/
def Visit.run (v : Visit) (c : Core) : Except (String × Core) Core :=
  (v.leaf v.word (c.writeFormHash (formHash v.form))).quiet

/-- One instruction after the other. -/
def runVisits : List Visit → Core → Except (String × Core) Core
  | [], c => .ok c
  | v :: vs, c => do runVisits vs (← v.run c)

theorem runVisits_cons {v : Visit} {vs : List Visit} {c c' : Core} (h : v.run c = .ok c') :
    runVisits (v :: vs) c = runVisits vs c' := by
  rw [runVisits, h]
  rfl

theorem runVisits_append {vs vs' : List Visit} {c c' : Core} (h : runVisits vs c = .ok c') :
    runVisits (vs ++ vs') c = runVisits vs' c' := by
  induction vs generalizing c with
  | nil =>
      rw [runVisits, Except.ok.injEq] at h
      rw [List.nil_append, h]
  | cons v vs ih =>
      cases hv : v.run c with
      | error e =>
          rw [runVisits, hv] at h
          cases h
      | ok d =>
          rw [runVisits_cons hv] at h
          rw [List.cons_append, runVisits_cons hv, ih h]

/-- Only the form hash and these vector registers may differ. -/
structure WritesOnly (rds : List (BitVec 5)) (c c' : Core) : Prop where
  others : ∀ r, r ∉ rds → c'.vregister r = c.vregister r
  registers : c'.registers = c.registers
  nzcv : c'.nzcv = c.nzcv
  memory : c'.memory = c.memory
  pc : c'.pc = c.pc

namespace WritesOnly

theorem refl (rds : List (BitVec 5)) (c : Core) : WritesOnly rds c c :=
  ⟨fun _ _ => rfl, rfl, rfl, rfl, rfl⟩

theorem trans {rds : List (BitVec 5)} {c c' c'' : Core} (h : WritesOnly rds c c')
    (h' : WritesOnly rds c' c'') : WritesOnly rds c c'' where
  others r hr := (h'.others r hr).trans (h.others r hr)
  registers := h'.registers.trans h.registers
  nzcv := h'.nzcv.trans h.nzcv
  memory := h'.memory.trans h.memory
  pc := h'.pc.trans h.pc

theorem mono {rds rds' : List (BitVec 5)} {c c' : Core} (h : WritesOnly rds c c')
    (hsub : rds ⊆ rds') : WritesOnly rds' c c' :=
  { h with others := fun r hr => h.others r fun hmem => hr (hsub hmem) }

theorem other {rd r : BitVec 5} {c c' : Core} (h : WritesOnly [rd] c c') (hr : r ≠ rd) :
    c'.vregister r = c.vregister r :=
  h.others r (by simpa using hr)

theorem setVRegister (rd : BitVec 5) (c : Core) (hash : FormHash) (r : SimVRegister) :
    WritesOnly [rd] c ((c.writeFormHash hash).setVRegister rd r) where
  others r' hr := by
    rw [vregister_setVRegister, if_neg (by simpa using hr)]
    rfl
  registers := rfl
  nzcv := rfl
  memory := rfl
  pc := rfl

end WritesOnly

/-- The instruction sets one register to a value of the state before it. -/
def Visit.Sets (v : Visit) (rd : BitVec 5) (f : Core → SimVRegister) : Prop :=
  ∀ c, ∃ hash, v.run c = .ok ((c.writeFormHash hash).setVRegister rd (f c))

theorem Visit.Sets.run {v : Visit} {rd : BitVec 5} {f : Core → SimVRegister} (h : v.Sets rd f)
    (c : Core) : ∃ c', v.run c = .ok c' ∧ c'.vregister rd = f c ∧ WritesOnly [rd] c c' := by
  obtain ⟨hash, hrun⟩ := h c
  refine ⟨_, hrun, ?_, WritesOnly.setVRegister rd c hash (f c)⟩
  rw [vregister_setVRegister, if_pos rfl]

/-- What a visitor does with the hash of its form, whatever the hash is. -/
theorem Visit.sets_of_leaf {v : Visit} {rd : BitVec 5} {f : Core → SimVRegister}
    (h : ∀ (c : Core) (hash : FormHash), hash = formHash v.form →
      v.leaf v.word (c.writeFormHash hash) =
        .done ((c.writeFormHash hash).setVRegister rd (f c))) : v.Sets rd f := by
  intro c
  have hleaf := h c _ rfl
  refine ⟨formHash v.form, ?_⟩
  rw [Visit.run, hleaf]
  generalize formHash v.form = hash
  rfl

/-! ## Bitwise operations on whole registers -/

/-- A bitwise instruction of `VisitNEON3Same` on 16 bytes. -/
structure BitwiseVisit (operation : Word) (rd rn rm : BitVec 5) (v : Visit) : Prop where
  leaf : ∃ other, v.leaf = visitNEON3Same other
  operation : v.word &&& 0xbfe0fc00 = operation
  full : v.word.getNEONQ = true
  destination : v.word.getRd = rd
  source : v.word.getRn = rn
  operand : v.word.getRm = rm

theorem lanes_writeFormHash (op : BitVec 8 → BitVec 8 → BitVec 8) (rd rn rm : BitVec 5) (n : Nat)
    (c : Core) (hash : FormHash) :
    lanes op rd rn rm n (c.writeFormHash hash) = (lanes op rd rn rm n c).writeFormHash hash := by
  induction n with
  | zero => rfl
  | succ n ih =>
      rw [lanes, lanes, ih]
      rfl

theorem bitwise_writeFormHash (op : BitVec 8 → BitVec 8 → BitVec 8) (bytes : Nat)
    (rd rn rm : BitVec 5) (c : Core) (hash : FormHash) :
    bitwise op bytes rd rn rm (c.writeFormHash hash) =
      (bitwise op bytes rd rn rm c).writeFormHash hash :=
  lanes_writeFormHash op rd rn rm bytes (c.setVRegister rd ((c.vregister rd).clearTail bytes)) hash

theorem visit_bitwise {v : Visit} {rd rn rm : BitVec 5} {op : BitVec 8 → BitVec 8 → BitVec 8}
    (h : ∀ d, v.leaf v.word d = .done (bitwise op 16 rd rn rm d)) :
    v.Sets rd fun c => (bitwise op 16 rd rn rm c).vregister rd := by
  apply Visit.sets_of_leaf
  intro c hash _
  have hregister : (bitwise op 16 rd rn rm (c.writeFormHash hash)).vregister rd =
      (bitwise op 16 rd rn rm c).vregister rd := by
    rw [bitwise_writeFormHash]
    generalize bitwise op 16 rd rn rm c = d
    rfl
  rw [h, bitwise_eq, hregister]

theorem BitwiseVisit.setsXor {rd rn rm : BitVec 5} {v : Visit}
    (h : BitwiseVisit 0x2e201c00 rd rn rm v) :
    v.Sets rd fun c => (bitwise (fun a b => a ^^^ b) 16 rd rn rm c).vregister rd := by
  obtain ⟨other, hleaf⟩ := h.leaf
  apply visit_bitwise
  intro d
  simp only [hleaf, visitNEON3Same, h.operation, h.destination, h.source, h.operand,
    logicalFormatBytes, h.full, if_true]
  simp

theorem BitwiseVisit.setsOr {rd rn rm : BitVec 5} {v : Visit}
    (h : BitwiseVisit 0x0ea01c00 rd rn rm v) :
    v.Sets rd fun c => (bitwise (fun a b => a ||| b) 16 rd rn rm c).vregister rd := by
  obtain ⟨other, hleaf⟩ := h.leaf
  apply visit_bitwise
  intro d
  simp only [hleaf, visitNEON3Same, h.operation, h.destination, h.source, h.operand,
    logicalFormatBytes, h.full, if_true]
  simp

theorem lane_bitwise {op : BitVec 8 → BitVec 8 → BitVec 8} {wide : BitVec 64 → BitVec 64 → BitVec 64}
    {bit : Bool → Bool → Bool} (hop : Bitwise op wide bit) (rd rn rm : BitVec 5) (c : Core)
    {width i k : Nat} (hk : k < width) (hlane : width * i + width ≤ 128) :
    (((bitwise op 16 rd rn rm c).vregister rd).lane width i).getLsbD k =
      bit (((c.vregister rn).lane width i).getLsbD k)
        (((c.vregister rm).lane width i).getLsbD k) := by
  have hbit := bitwise_getLsbD hop (Nat.le_refl 16) rd rn rm c
    (show width * i + k < 2048 by omega)
  rw [if_pos (by omega)] at hbit
  simpa [SimVRegister.lane, hk] using hbit

/-- `ORR` of a register with itself moves it. -/
theorem lane_move (rd rn : BitVec 5) (c : Core) {width i : Nat} (hlane : width * i + width ≤ 128) :
    ((bitwise (fun a b => a ||| b) 16 rd rn rn c).vregister rd).lane width i =
      (c.vregister rn).lane width i := by
  apply BitVec.eq_of_getLsbD_eq
  intro k hk
  rw [lane_bitwise bitwise_or rd rn rn c hk hlane, Bool.or_self]

end GabyVm.Aarch64
