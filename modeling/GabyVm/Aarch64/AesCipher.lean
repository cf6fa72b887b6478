import GabyVm.Aarch64.CipherTables
import GabyVm.Aarch64.VectorLanes
import GabyVm.Foundation.RoundCiphers
import Mathlib.Tactic.IntervalCases

/-!
# The AES instructions

A guest encrypts a block with two instructions for each round.  The inverse
instructions, with the keys in reverse order and the inner ones as the inverse
mix leaves them, decrypt it again.
-/

namespace GabyVm.Aarch64

open GabyVm.Foundation

/-! ## The AES helpers -/

/-- `GalMul`; a factor without a table is one. -/
def galMul (table : Nat) (x : BitVec 8) : BitVec 8 :=
  match table with
  | 0x2 => tableEntry ffmul02 x
  | 0x3 => tableEntry ffmul03 x
  | 0x9 => tableEntry ffmul09 x
  | 0xb => tableEntry ffmul0b x
  | 0xd => tableEntry ffmul0d x
  | 0xe => tableEntry ffmul0e x
  | _ => x

def aesMixFactors (inverse : Bool) : List Nat :=
  if inverse then [0xb, 0xd, 0x9, 0xe] else [0x3, 0x0, 0x0, 0x2]

def aesMixInner (x : Nat → BitVec 8) (stage : Nat) (inverse : Bool) : BitVec 8 :=
  let index := 3 - stage
  (List.range 4).foldl (fun result i =>
    result ^^^ galMul ((aesMixFactors inverse).getD ((index + i) % 4) 0) (x i)) 0

def aesmix (dst src : SimVRegister) (inverse : Bool) : SimVRegister :=
  dst.setUintArray 16 fun c =>
    let cmod4 := c % 4
    let d := c - cmod4
    aesMixInner (fun i => src.lane 8 (d + i)) cmod4 inverse

def aesShift (decrypt : Bool) : List Nat :=
  if decrypt then [0, 13, 10, 7, 4, 1, 14, 11, 8, 5, 2, 15, 12, 9, 6, 3]
  else [0, 5, 10, 15, 4, 9, 14, 3, 8, 13, 2, 7, 12, 1, 6, 11]

/-- Shift the rows, then substitute the bytes. -/
def aes (dst src : SimVRegister) (decrypt : Bool) : SimVRegister :=
  let shifted := dst.setUintArray 16 fun i => src.lane 8 ((aesShift decrypt).getD i 0)
  let table := if decrypt then gf2Inv else gf2
  shifted.setLanes 16 fun i => tableEntry table (shifted.lane 8 i)

/-- `eor` of a format of 16 bytes. -/
def eor16B (dst src1 src2 : SimVRegister) : SimVRegister :=
  dst.setUintArray 16 fun i => src1.lane 8 i ^^^ src2.lane 8 i

/-- A register on the stack of a visitor. -/
def tempRegister : SimVRegister := ⟨0, 256⟩

inductive AesForm where
  | aesd
  | aese
  | aesimc
  | aesmc
  deriving DecidableEq, Repr

namespace AesForm

def all : List AesForm := [aesd, aese, aesimc, aesmc]

def name : AesForm → String
  | aesd => "aesd_b_cryptoaes"
  | aese => "aese_b_cryptoaes"
  | aesimc => "aesimc_b_cryptoaes"
  | aesmc => "aesmc_b_cryptoaes"

def result (form : AesForm) (rd rn : SimVRegister) : SimVRegister :=
  match form with
  | aesd => aes rd (eor16B tempRegister rd rn) true
  | aese => aes rd (eor16B tempRegister rd rn) false
  | aesimc => aesmix rd rn true
  | aesmc => aesmix rd rn false

end AesForm

def visitCryptoAES : Leaf := fun w c =>
  match AesForm.all.find? fun form => c.formHash == formHash form.name with
  | some form =>
      .done (c.setVRegister w.getRd (form.result (c.vregister w.getRd) (c.vregister w.getRn)))
  | none => .done c

theorem find_aesForm (form : AesForm) :
    AesForm.all.find? (fun other => formHash form.name == formHash other.name) = some form := by
  cases form <;> decide +kernel

/-! ## Products in the field -/

/-- A product by two, without a table. -/
def xtime (x : BitVec 8) : BitVec 8 := x <<< 1 ^^^ if x.msb then 0x1b else 0

theorem xtime_xor (x y : BitVec 8) : xtime (x ^^^ y) = xtime x ^^^ xtime y := by
  have hshift : (x ^^^ y) <<< 1 = x <<< 1 ^^^ y <<< 1 := BitVec.shiftLeft_xor_distrib x y 1
  rw [xtime, xtime, xtime, hshift, BitVec.msb_xor]
  cases x.msb <;> cases y.msb
  · simp
  · simp [BitVec.xor_assoc]
  · simp only [Bool.true_bne, Bool.not_false, if_true, Bool.false_eq_true, if_false,
      BitVec.ofNat_eq_ofNat, BitVec.xor_zero]
    ac_rfl
  · have hboth (a b c : BitVec 8) : a ^^^ c ^^^ (b ^^^ c) = a ^^^ b ^^^ (c ^^^ c) := by ac_rfl
    simp only [bne_self_eq_false, Bool.false_eq_true, if_false, if_true]
    rw [hboth, BitVec.xor_self]
    rfl

theorem tableEntry_of_eq {table : List Nat} {f : BitVec 8 → BitVec 8}
    (h : table = (List.range 256).map fun n => (f (BitVec.ofNat 8 n)).toNat) (x : BitVec 8) :
    tableEntry table x = f x := by
  have hlt : x.toNat < 256 := x.isLt
  simp [h, tableEntry, hlt]

theorem galMul_two (x : BitVec 8) : galMul 0x2 x = xtime x :=
  tableEntry_of_eq (by decide +kernel) x

theorem galMul_three (x : BitVec 8) : galMul 0x3 x = xtime x ^^^ x :=
  @tableEntry_of_eq ffmul03 (fun x => xtime x ^^^ x) (by decide +kernel) x

theorem galMul_nine (x : BitVec 8) : galMul 0x9 x = xtime (xtime (xtime x)) ^^^ x :=
  @tableEntry_of_eq ffmul09 (fun x => xtime (xtime (xtime x)) ^^^ x) (by decide +kernel) x

theorem galMul_eleven (x : BitVec 8) :
    galMul 0xb x = xtime (xtime (xtime x)) ^^^ xtime x ^^^ x :=
  @tableEntry_of_eq ffmul0b (fun x => xtime (xtime (xtime x)) ^^^ xtime x ^^^ x)
    (by decide +kernel) x

theorem galMul_thirteen (x : BitVec 8) :
    galMul 0xd x = xtime (xtime (xtime x)) ^^^ xtime (xtime x) ^^^ x :=
  @tableEntry_of_eq ffmul0d (fun x => xtime (xtime (xtime x)) ^^^ xtime (xtime x) ^^^ x)
    (by decide +kernel) x

theorem galMul_fourteen (x : BitVec 8) :
    galMul 0xe x = xtime (xtime (xtime x)) ^^^ xtime (xtime x) ^^^ xtime x :=
  @tableEntry_of_eq ffmul0e (fun x => xtime (xtime (xtime x)) ^^^ xtime (xtime x) ^^^ xtime x)
    (by decide +kernel) x

theorem galMul_zero (x : BitVec 8) : galMul 0x0 x = x := rfl

theorem galMul_xor {table : Nat} (htable : table ∈ [0x0, 0x2, 0x3, 0x9, 0xb, 0xd, 0xe])
    (x y : BitVec 8) : galMul table (x ^^^ y) = galMul table x ^^^ galMul table y := by
  simp only [List.mem_cons, List.not_mem_nil, or_false] at htable
  rcases htable with rfl | rfl | rfl | rfl | rfl | rfl | rfl
  · rfl
  · simp only [galMul_two, xtime_xor]
  · simp only [galMul_three, xtime_xor]
    ac_rfl
  · simp only [galMul_nine, xtime_xor]
    ac_rfl
  · simp only [galMul_eleven, xtime_xor]
    ac_rfl
  · simp only [galMul_thirteen, xtime_xor]
    ac_rfl
  · simp only [galMul_fourteen, xtime_xor]
    ac_rfl

/-! ## Mixed columns -/

def aesMixFactor (stage i : Nat) (inverse : Bool) : Nat :=
  (aesMixFactors inverse).getD ((3 - stage + i) % 4) 0

theorem aesMixInner_eq (x : Nat → BitVec 8) (stage : Nat) (inverse : Bool) :
    aesMixInner x stage inverse =
      galMul (aesMixFactor stage 0 inverse) (x 0) ^^^ galMul (aesMixFactor stage 1 inverse) (x 1) ^^^
        galMul (aesMixFactor stage 2 inverse) (x 2) ^^^
          galMul (aesMixFactor stage 3 inverse) (x 3) := by
  simp [aesMixInner, aesMixFactor, List.range_succ]

theorem aesMixFactor_mem (stage i : Nat) (inverse : Bool) :
    aesMixFactor stage i inverse ∈ [0x0, 0x2, 0x3, 0x9, 0xb, 0xd, 0xe] := by
  have hmod : (3 - stage + i) % 4 < 4 := Nat.mod_lt _ (by omega)
  rw [aesMixFactor]
  generalize (3 - stage + i) % 4 = j at hmod
  interval_cases j <;> cases inverse <;> decide

theorem aesMixInner_xor (x y : Nat → BitVec 8) (stage : Nat) (inverse : Bool) :
    aesMixInner (fun i => x i ^^^ y i) stage inverse =
      aesMixInner x stage inverse ^^^ aesMixInner y stage inverse := by
  have hmem (i : Nat) := galMul_xor (aesMixFactor_mem stage i inverse)
  simp only [aesMixInner_eq, hmem]
  ac_rfl

/-- The products of the factors of the inverse with those of the mix. -/
theorem mixFactors_inverse (x : BitVec 8) :
    galMul 0xe (galMul 0x2 x) ^^^ galMul 0xb x ^^^ galMul 0xd x ^^^ galMul 0x9 (galMul 0x3 x) = x ∧
      galMul 0xe (galMul 0x3 x) ^^^ galMul 0xb (galMul 0x2 x) ^^^ galMul 0xd x ^^^ galMul 0x9 x = 0 ∧
      galMul 0xe x ^^^ galMul 0xb (galMul 0x3 x) ^^^ galMul 0xd (galMul 0x2 x) ^^^ galMul 0x9 x = 0 ∧
      galMul 0xe x ^^^ galMul 0xb x ^^^ galMul 0xd (galMul 0x3 x) ^^^ galMul 0x9 (galMul 0x2 x) =
        0 := by
  simp only [galMul_two, galMul_three, galMul_nine, galMul_eleven, galMul_thirteen,
    galMul_fourteen]
  revert x
  decide +kernel

theorem aesMixInner_inverse (y : Nat → BitVec 8) {stage : Nat} (hstage : stage < 4) :
    aesMixInner (fun i => aesMixInner y i false) stage true = y stage := by
  have hxor (k : Nat) (hk : k ∈ [0x0, 0x2, 0x3, 0x9, 0xb, 0xd, 0xe]) := galMul_xor hk
  have h9 := hxor 0x9 (by decide)
  have hb := hxor 0xb (by decide)
  have hd := hxor 0xd (by decide)
  have he := hxor 0xe (by decide)
  obtain ⟨hone, hlast, hmiddle, hnext⟩ : _ ∧ _ ∧ _ ∧ _ :=
    ⟨fun x => (mixFactors_inverse x).1, fun x => (mixFactors_inverse x).2.1,
      fun x => (mixFactors_inverse x).2.2.1, fun x => (mixFactors_inverse x).2.2.2⟩
  -- Of the sixteen products four make up the byte and the others cancel.
  have hcolumn (p q r s : BitVec 8) :
      galMul 0xe (galMul 0x2 p ^^^ galMul 0x3 q ^^^ r ^^^ s) ^^^
        galMul 0xb (p ^^^ galMul 0x2 q ^^^ galMul 0x3 r ^^^ s) ^^^
          galMul 0xd (p ^^^ q ^^^ galMul 0x2 r ^^^ galMul 0x3 s) ^^^
            galMul 0x9 (galMul 0x3 p ^^^ q ^^^ r ^^^ galMul 0x2 s) = p := by
    have hp := hone p
    have hq := hlast q
    have hr := hmiddle r
    have hs := hnext s
    calc _ = (galMul 0xe (galMul 0x2 p) ^^^ galMul 0xb p ^^^ galMul 0xd p ^^^
              galMul 0x9 (galMul 0x3 p)) ^^^
            (galMul 0xe (galMul 0x3 q) ^^^ galMul 0xb (galMul 0x2 q) ^^^ galMul 0xd q ^^^
              galMul 0x9 q) ^^^
            (galMul 0xe r ^^^ galMul 0xb (galMul 0x3 r) ^^^ galMul 0xd (galMul 0x2 r) ^^^
              galMul 0x9 r) ^^^
            (galMul 0xe s ^^^ galMul 0xb s ^^^ galMul 0xd (galMul 0x3 s) ^^^
              galMul 0x9 (galMul 0x2 s)) := by
            simp only [h9, hb, hd, he]
            ac_rfl
      _ = p := by simp [hp, hq, hr, hs]
  have hfactors : aesMixFactors true = [0xb, 0xd, 0x9, 0xe] ∧
      aesMixFactors false = [0x3, 0x0, 0x0, 0x2] := ⟨rfl, rfl⟩
  interval_cases stage
  all_goals simp only [aesMixInner_eq, aesMixFactor, hfactors]
  · refine Eq.trans ?_ (hcolumn (y 0) (y 1) (y 2) (y 3))
    rfl
  · refine Eq.trans ?_ (hcolumn (y 1) (y 2) (y 3) (y 0))
    simp [galMul_zero]
    ac_rfl
  · refine Eq.trans ?_ (hcolumn (y 2) (y 3) (y 0) (y 1))
    simp [galMul_zero]
    ac_rfl
  · refine Eq.trans ?_ (hcolumn (y 3) (y 0) (y 1) (y 2))
    simp [galMul_zero]
    ac_rfl

/-! ## Blocks -/

abbrev Block := Fin 16 → BitVec 8

def SimVRegister.block (r : SimVRegister) : Block := fun i => r.lane 8 i

def Core.block (c : Core) (code : BitVec 5) : Block := (c.vregister code).block

namespace Block

def add (x key : Block) : Block := fun i => x i ^^^ key i

def shiftIndex (decrypt : Bool) (i : Fin 16) : Fin 16 :=
  ⟨(aesShift decrypt).getD i 0 % 16, Nat.mod_lt _ (by omega)⟩

def substitute (decrypt : Bool) (x : Block) : Block := fun i =>
  tableEntry (if decrypt then gf2Inv else gf2) (x (shiftIndex decrypt i))

def columnIndex (c : Fin 16) (i : Nat) : Fin 16 :=
  ⟨(c - c % 4 + i) % 16, Nat.mod_lt _ (by omega)⟩

def mix (inverse : Bool) (x : Block) : Block := fun c =>
  aesMixInner (fun i => x (columnIndex c i)) (c % 4) inverse

theorem add_add (x key : Block) : add (add x key) key = x := by
  funext i
  simp only [add, BitVec.xor_assoc, BitVec.xor_self, BitVec.xor_zero]

theorem shiftIndex_inverse (i : Fin 16) : shiftIndex false (shiftIndex true i) = i := by
  revert i
  decide

theorem tableEntry_inverse (x : BitVec 8) : tableEntry gf2Inv (tableEntry gf2 x) = x := by
  revert x
  decide +kernel

theorem substitute_inverse (x : Block) : substitute true (substitute false x) = x := by
  funext i
  simp [substitute, shiftIndex_inverse, tableEntry_inverse]

theorem columnIndex_column {c : Fin 16} {i : Nat} (hi : i < 4) :
    (columnIndex c i).val % 4 = i ∧ columnIndex (columnIndex c i) = columnIndex c := by
  have hval : (columnIndex c i).val = (c - c % 4 + i) % 16 := rfl
  refine ⟨by omega, ?_⟩
  funext j
  apply Fin.ext
  show (((columnIndex c i).val - (columnIndex c i).val % 4 + j) % 16) = (c - c % 4 + j) % 16
  rw [hval]
  omega

theorem columnIndex_self (c : Fin 16) : columnIndex c (c % 4) = c := by
  apply Fin.ext
  show (c.val - c % 4 + c % 4) % 16 = c
  omega

theorem aesMixInner_congr {x y : Nat → BitVec 8} (h : ∀ i < 4, x i = y i) (stage : Nat)
    (inverse : Bool) : aesMixInner x stage inverse = aesMixInner y stage inverse := by
  rw [aesMixInner_eq, aesMixInner_eq, h 0 (by omega), h 1 (by omega), h 2 (by omega),
    h 3 (by omega)]

theorem mix_inverse (x : Block) : mix true (mix false x) = x := by
  funext c
  have hcolumn (i : Nat) (hi : i < 4) : mix false x (columnIndex c i) =
      aesMixInner (fun i => x (columnIndex c i)) i false := by
    obtain ⟨hstage, hindex⟩ := columnIndex_column (c := c) hi
    rw [mix, hstage, hindex]
  have hstage : c.val % 4 < 4 := Nat.mod_lt _ (by omega)
  rw [mix, aesMixInner_congr hcolumn, aesMixInner_inverse _ hstage, columnIndex_self]

theorem mix_add (inverse : Bool) (x y : Block) :
    mix inverse (add x y) = add (mix inverse x) (mix inverse y) := by
  funext c
  exact aesMixInner_xor _ _ (c % 4) inverse

end Block

/-! ## What the helpers do to a block -/

theorem block_setUintArray (r : SimVRegister) (f : Nat → BitVec 8) (i : Fin 16) :
    (r.setUintArray 16 f).block i = f i :=
  SimVRegister.lane_setUintArray r f (by omega) i.isLt

theorem block_eor16B (dst x y : SimVRegister) :
    (eor16B dst x y).block = Block.add x.block y.block := by
  funext i
  exact block_setUintArray _ _ i

theorem block_aesmix (dst src : SimVRegister) (inverse : Bool) :
    (aesmix dst src inverse).block = Block.mix inverse src.block := by
  funext c
  rw [aesmix, block_setUintArray, Block.mix]
  apply Block.aesMixInner_congr
  intro i hi
  have hval : (Block.columnIndex c i).val = c - c % 4 + i := by
    show (c.val - c % 4 + i) % 16 = c - c % 4 + i
    omega
  simp only [SimVRegister.block, hval]

theorem aesShift_lt (decrypt : Bool) (i : Fin 16) : (aesShift decrypt).getD i 0 < 16 := by
  revert decrypt i
  decide

theorem block_aes (dst src : SimVRegister) (decrypt : Bool) :
    (aes dst src decrypt).block = Block.substitute decrypt src.block := by
  funext i
  have hindex : (Block.shiftIndex decrypt i).val = (aesShift decrypt).getD i 0 :=
    Nat.mod_eq_of_lt (aesShift_lt decrypt i)
  have hshift := block_setUintArray dst (fun i => src.lane 8 ((aesShift decrypt).getD i 0)) i
  have hlane (r : SimVRegister) (f : Nat → BitVec 8) : (r.setLanes 16 f).lane 8 i = f i := by
    apply BitVec.eq_of_getLsbD_eq
    intro k hk
    rw [SimVRegister.lane, BitVec.getLsbD_extractLsb',
      SimVRegister.setLanes_getLsbD r f (by omega) hk (by omega), if_pos i.isLt]
    simp [hk]
  rw [SimVRegister.block] at hshift
  rw [aes, SimVRegister.block, hlane, hshift, Block.substitute, SimVRegister.block, hindex]

/-! ## AES programs -/

structure AesVisit (form : AesForm) (rd rn : BitVec 5) (v : Visit) : Prop where
  leaf : v.leaf = visitCryptoAES
  form : v.form = form.name
  destination : v.word.getRd = rd
  source : v.word.getRn = rn

theorem AesVisit.sets {form : AesForm} {rd rn : BitVec 5} {v : Visit} (h : AesVisit form rd rn v) :
    v.Sets rd fun c => form.result (c.vregister rd) (c.vregister rn) := by
  apply Visit.sets_of_leaf
  intro c hash hhash
  have hfind : AesForm.all.find? (fun other => (c.writeFormHash hash).formHash ==
      formHash other.name) = some form := by
    rw [Core.writeFormHash, hhash, h.form]
    exact find_aesForm form
  rw [h.leaf, visitCryptoAES, hfind, h.destination, h.source]
  rfl

theorem block_bitwise_xor (c : Core) (rd rm : BitVec 5) :
    ((bitwise (fun a b => a ^^^ b) 16 rd rd rm c).vregister rd).block =
      Block.add (c.block rd) (c.block rm) := by
  funext i
  apply BitVec.eq_of_getLsbD_eq
  intro k hk
  rw [SimVRegister.block, lane_bitwise bitwise_xor rd rd rm c hk (by omega), Block.add,
    BitVec.getLsbD_xor]
  rfl

/-- A cipher on the register `v` with keys in registers. -/
inductive AesProgram (round mix : AesForm) (v : BitVec 5) :
    BitVec 5 → List (BitVec 5) → BitVec 5 → List Visit → Prop where
  | last {first last : BitVec 5} {r e : Visit} (hround : AesVisit round v first r)
      (hlast : BitwiseVisit 0x2e201c00 v v last e) : AesProgram round mix v first [] last [r, e]
  | step {first key last : BitVec 5} {inner : List (BitVec 5)} {r m : Visit} {rest : List Visit}
      (hround : AesVisit round v first r) (hmix : AesVisit mix v v m)
      (hrest : AesProgram round mix v key inner last rest) :
      AesProgram round mix v first (key :: inner) last (r :: m :: rest)

structure Computes (round mix : AesForm) (decrypt : Bool) : Prop where
  round : ∀ rd rn, (round.result rd rn).block =
    Block.substitute decrypt (Block.add rd.block rn.block)
  mix : ∀ rd rn, (mix.result rd rn).block = Block.mix decrypt rn.block

theorem computes_encrypt : Computes .aese .aesmc false where
  round rd rn := by rw [AesForm.result, block_aes, block_eor16B]
  mix rd rn := block_aesmix rd rn false

theorem computes_decrypt : Computes .aesd .aesimc true where
  round rd rn := by rw [AesForm.result, block_aes, block_eor16B]
  mix rd rn := block_aesmix rd rn true

theorem block_congr {rd r : BitVec 5} {c c' : Core} (h : WritesOnly [rd] c c') (hr : r ≠ rd) :
    c'.block r = c.block r := by
  rw [Core.block, Core.block, h.other hr]

theorem AesProgram.run {round mix : AesForm} {decrypt : Bool}
    (hcomputes : Computes round mix decrypt) {v first last : BitVec 5} {inner : List (BitVec 5)}
    {vs : List Visit} (h : AesProgram round mix v first inner last vs)
    (hkeys : ∀ r ∈ first :: last :: inner, r ≠ v) (c : Core) :
    ∃ c', runVisits vs c = .ok c' ∧
      c'.block v = keyAlternating Block.add (Block.substitute decrypt) (Block.mix decrypt)
        (c.block first) (inner.map c.block) (c.block last) (c.block v) ∧ WritesOnly [v] c c' := by
  induction h generalizing c with
  | @last first last r e hround hlast =>
      obtain ⟨d, hr, hd, hrest⟩ := hround.sets.run c
      obtain ⟨c', he, hc', hrest'⟩ := hlast.setsXor.run d
      have hround := hcomputes.round (c.vregister v) (c.vregister first)
      rw [← hd] at hround
      refine ⟨c', ?_, ?_, hrest.trans hrest'⟩
      · rw [runVisits_cons hr, runVisits_cons he, runVisits]
      · rw [Core.block, hc', block_bitwise_xor, Core.block, hround,
          block_congr hrest (hkeys last (by simp))]
        rfl
  | @step first key last inner r m rest hround hmix hprogram ih =>
      obtain ⟨d, hr, hd, hrest⟩ := hround.sets.run c
      obtain ⟨e, hm, he, hrest'⟩ := hmix.sets.run d
      have hround := hcomputes.round (c.vregister v) (c.vregister first)
      have hmix := hcomputes.mix (d.vregister v) (d.vregister v)
      rw [← hd] at hround
      rw [← he] at hmix
      have hwrites := hrest.trans hrest'
      obtain ⟨c', hrun, hc', hrest''⟩ := ih (fun r hr => hkeys r (by
        simp only [List.mem_cons] at hr ⊢
        tauto)) e
      have hkey (r : BitVec 5) (hr : r ∈ key :: last :: inner) : e.block r = c.block r :=
        block_congr hwrites (hkeys r (by
          simp only [List.mem_cons] at hr ⊢
          tauto))
      have hinner : inner.map e.block = inner.map c.block :=
        List.map_congr_left fun r hr => hkey r (by simp [hr])
      refine ⟨c', ?_, ?_, hwrites.trans hrest''⟩
      · rw [runVisits_cons hr, runVisits_cons hm, hrun]
      · have hstate : e.block v = Block.mix decrypt
            (Block.substitute decrypt (Block.add (c.block v) (c.block first))) := by
          rw [Core.block, hmix, hround, Core.block, Core.block]
        rw [hc', hkey key (by simp), hinner, hkey last (by simp), hstate]
        rfl

/--
A program of `AESE` and `AESMC` and the program of `AESD` and `AESIMC` whose
keys are those of the first in reverse order, the inner ones as `AESIMC` leaves
them, give back the block; nothing else but the register of the block changes.
-/
theorem aes_roundTrip {v first last : BitVec 5} {inner inner' : List (BitVec 5)}
    {vs vs' : List Visit} (hencrypt : AesProgram .aese .aesmc v first inner last vs)
    (hdecrypt : AesProgram .aesd .aesimc v last inner' first vs')
    (hkeys : ∀ r ∈ first :: last :: inner ++ inner', r ≠ v) {c : Core}
    (hmixed : inner'.map c.block =
      inner.reverse.map fun r => (AesForm.aesimc.result (c.vregister r) (c.vregister r)).block) :
    ∃ c' c'', runVisits vs c = .ok c' ∧ runVisits vs' c' = .ok c'' ∧
      c''.block v = c.block v ∧ WritesOnly [v] c c'' := by
  obtain ⟨c', hrun, hblock, hrest⟩ := hencrypt.run computes_encrypt
    (fun r hr => hkeys r (by simp only [List.mem_cons, List.mem_append] at hr ⊢; tauto)) c
  obtain ⟨c'', hrun', hblock', hrest'⟩ := hdecrypt.run computes_decrypt
    (fun r hr => hkeys r (by simp only [List.mem_cons, List.mem_append] at hr ⊢; tauto)) c'
  have hkey (r : BitVec 5) (hr : r ∈ first :: last :: inner ++ inner') : c'.block r = c.block r :=
    block_congr hrest (hkeys r hr)
  have hinner : inner'.map c'.block = (inner.map c.block).reverse.map (Block.mix true) := by
    rw [List.map_congr_left fun r hr => hkey r (by simp [hr]), hmixed, ← List.map_reverse,
      List.map_map]
    exact List.map_congr_left fun r _ => computes_decrypt.mix _ _
  refine ⟨c', c'', hrun, hrun', ?_, hrest.trans hrest'⟩
  rw [hblock', hkey last (by simp), hkey first (by simp), hinner, hblock]
  exact keyAlternating_inverse Block.add_add Block.substitute_inverse Block.mix_inverse
    (Block.mix_add true) _ _ _ _

/-- Keys for three additions, and the inner one mixed. -/
def aesRegisters : Core :=
  let inner : SimVRegister := ⟨0x0f0e0d0c0b0a09080706050403020100, 16⟩
  { (default : Core) with
    vregisters := fun i => match i.val with
      | 0 => ⟨0xffeeddccbbaa99887766554433221100, 16⟩
      | 1 => ⟨0x3c4fcf098815f7aba6d2ae2816157e2b, 16⟩
      | 2 => inner
      | 3 => ⟨0x05766c2a3939a323b12c548817fefaa0, 16⟩
      | 4 => AesForm.aesimc.result inner inner
      | _ => ⟨0, 16⟩ }

def aesVisit (form : AesForm) (w : Word) : Visit := ⟨form.name, visitCryptoAES, w⟩

def eorVisit (w : Word) : Visit := ⟨"eor_asimdsame_only", visitNEON3Same fun _ c => .done c, w⟩

theorem aesVisit_fields {form : AesForm} {rd rn : BitVec 5} {w : Word}
    (h : w.getRd = rd ∧ w.getRn = rn) : AesVisit form rd rn (aesVisit form w) :=
  ⟨rfl, rfl, h.1, h.2⟩

theorem eorVisit_fields {rd rm : BitVec 5} {w : Word}
    (h : w &&& 0xbfe0fc00 = 0x2e201c00 ∧ w.getNEONQ = true ∧ w.getRd = rd ∧ w.getRn = rd ∧
      w.getRm = rm) : BitwiseVisit 0x2e201c00 rd rd rm (eorVisit w) :=
  ⟨⟨_, rfl⟩, h.1, h.2.1, h.2.2.1, h.2.2.2.1, h.2.2.2.2⟩

theorem aesProgram_two : AesProgram .aese .aesmc 0 1 [2] 3
    [aesVisit .aese 0x4e284820, aesVisit .aesmc 0x4e286800, aesVisit .aese 0x4e284840,
      eorVisit 0x6e231c00] :=
  .step (aesVisit_fields (by decide)) (aesVisit_fields (by decide))
    (.last (aesVisit_fields (by decide)) (eorVisit_fields (by decide)))

theorem aesProgram_two_inverse : AesProgram .aesd .aesimc 0 3 [4] 1
    [aesVisit .aesd 0x4e285860, aesVisit .aesimc 0x4e287800, aesVisit .aesd 0x4e285880,
      eorVisit 0x6e211c00] :=
  .step (aesVisit_fields (by decide)) (aesVisit_fields (by decide))
    (.last (aesVisit_fields (by decide)) (eorVisit_fields (by decide)))

/-- `AESE V0, V1`, `AESMC V0, V0`, `AESE V0, V2`, `EOR V0, V0, V3`, and back with `V4`. -/
theorem aes_roundTrip_two :
    ∃ c' c'', runVisits [aesVisit .aese 0x4e284820, aesVisit .aesmc 0x4e286800,
        aesVisit .aese 0x4e284840, eorVisit 0x6e231c00] aesRegisters = .ok c' ∧
      runVisits [aesVisit .aesd 0x4e285860, aesVisit .aesimc 0x4e287800,
        aesVisit .aesd 0x4e285880, eorVisit 0x6e211c00] c' = .ok c'' ∧
      c''.block 0 = aesRegisters.block 0 ∧ WritesOnly [0] aesRegisters c'' :=
  aes_roundTrip aesProgram_two aesProgram_two_inverse (by decide) rfl

end GabyVm.Aarch64
