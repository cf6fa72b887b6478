import GabyVm.Aarch64.QuietLeaves
import GabyVm.Aarch64.RegisterLeaves
import GabyVm.Foundation.BinaryPolynomial

/-!
# Cyclic redundancy checks

The checksum instructions divide by a polynomial over the field with two
elements, one bit of the data after the other.  What a sequence of them leaves
is the remainder of the whole message, so it does not depend on how the message
was cut into bytes, half words, words and double words.
-/

namespace GabyVm.Aarch64

open GabyVm.Foundation
open Polynomial

/-! ## The source's loops -/

def reverseBitsFrom {w : Nat} : Nat → BitVec w → BitVec w → BitVec w
  | 0, _, result => result
  | n + 1, value, result => reverseBitsFrom n (value >>> 1) (result <<< 1 ||| value &&& 1)

def reverseBits {w : Nat} (value : BitVec w) : BitVec w := reverseBitsFrom w value 0

/-- One round of `Poly32Mod2`, which clears bit `i`. -/
def poly32Mod2Round (poly : BitVec 32) (i : Nat) (data : BitVec 64) : BitVec 64 :=
  if data >>> i &&& 1 != 0 then
    let polysh32 := poly.setWidth 64 <<< (i - 32)
    let mask := 1#64 <<< i - 1
    (data &&& mask) ^^^ polysh32
  else data

/-- The rounds from bit `31 + n` down to bit 32. -/
def poly32Mod2Rounds (poly : BitVec 32) : Nat → BitVec 64 → BitVec 64
  | 0, data => data
  | n + 1, data => poly32Mod2Rounds poly n (poly32Mod2Round poly (32 + n) data)

def poly32Mod2 (n : Nat) (data : BitVec 64) (poly : BitVec 32) : BitVec 32 :=
  (poly32Mod2Rounds poly (n - 32) data).setWidth 32

/-- `Crc32Checksum` of a value of up to 32 bits. -/
def crc32Checksum {size : Nat} (acc : BitVec 32) (val : BitVec size) (poly : BitVec 32) :
    BitVec 32 :=
  let tempacc := (reverseBits acc).setWidth 64 <<< size
  let tempval := (reverseBits val).setWidth 64 <<< 32
  reverseBits (poly32Mod2 (32 + size) (tempacc ^^^ tempval) poly)

/-- `Crc32Checksum` of a double word, the low word first. -/
def crc32Checksum64 (acc : BitVec 32) (val : BitVec 64) (poly : BitVec 32) : BitVec 32 :=
  let acc := crc32Checksum acc (val.setWidth 32) poly
  crc32Checksum acc ((val >>> 32).setWidth 32) poly

def CRC32_POLY : BitVec 32 := 0x04c11db7

def CRC32C_POLY : BitVec 32 := 0x1edc6f41

/-! ## Reversed bits -/

theorem reverseBitsFrom_getLsbD {w n : Nat} (value result : BitVec w) {i : Nat} (hi : i < w) :
    (reverseBitsFrom n value result).getLsbD i =
      if i < n then value.getLsbD (n - 1 - i) else result.getLsbD (i - n) := by
  induction n generalizing value result with
  | zero => simp [reverseBitsFrom]
  | succ n ih =>
      rw [reverseBitsFrom, ih]
      by_cases hn : i < n
      · rw [if_pos hn, if_pos (by omega), BitVec.getLsbD_ushiftRight]
        congr 1
        omega
      · rw [if_neg hn, BitVec.getLsbD_or, BitVec.getLsbD_and, BitVec.getLsbD_shiftLeft]
        by_cases heq : i = n
        · subst heq
          simp [show 0 < w by omega]
        · have hone : (1 : BitVec w).getLsbD (i - n) = false := by
            simp [BitVec.getLsbD_one, show i - n ≠ 0 by omega]
          rw [hone, if_neg (by omega)]
          simp [show i - n < w by omega, show ¬i - n < 1 by omega,
            show i - n - 1 = i - (n + 1) by omega]

theorem reverseBits_getLsbD {w : Nat} (value : BitVec w) {i : Nat} (hi : i < w) :
    (reverseBits value).getLsbD i = value.getLsbD (w - 1 - i) := by
  rw [reverseBits, reverseBitsFrom_getLsbD value 0 hi, if_pos hi]

theorem reverseBits_reverseBits {w : Nat} (value : BitVec w) :
    reverseBits (reverseBits value) = value := by
  apply BitVec.eq_of_getLsbD_eq
  intro i hi
  rw [reverseBits_getLsbD _ hi, reverseBits_getLsbD _ (by omega)]
  congr 1
  omega

theorem reverseBits_injective {w : Nat} : Function.Injective (reverseBits : BitVec w → BitVec w) :=
  Function.LeftInverse.injective reverseBits_reverseBits

/-! ## Division -/

noncomputable def crcModulus (poly : BitVec 32) : (ZMod 2)[X] := X ^ 32 + toPoly poly

theorem degree_toPoly_word (poly : BitVec 32) : (toPoly poly).degree < (32 : Nat) :=
  degree_toPoly_lt fun i hi => BitVec.getLsbD_of_ge poly i hi

theorem crcModulus_monic (poly : BitVec 32) : (crcModulus poly).Monic :=
  monic_X_pow_add (degree_toPoly_word poly)

theorem crcModulus_degree (poly : BitVec 32) : (crcModulus poly).degree = (32 : Nat) := by
  rw [crcModulus, degree_add_eq_left_of_degree_lt, degree_X_pow]
  rw [degree_X_pow]
  exact degree_toPoly_word poly

theorem shift_and_one (data : BitVec 64) (i : Nat) :
    (data >>> i &&& 1 != 0) = data.getLsbD i := by
  have hbit := BitVec.and_twoPow (data >>> i) 0
  rw [BitVec.getLsbD_ushiftRight, Nat.add_zero] at hbit
  have hone : data >>> i &&& 1 = if data.getLsbD i then 1 else 0 := hbit
  rw [hone]
  cases data.getLsbD i <;> decide

theorem lowMask_getLsbD {i : Nat} (hi : i < 64) (j : Nat) :
    (1#64 <<< i - 1).getLsbD j = decide (j < i) := by
  have hpow : 2 ^ i < 2 ^ 64 := Nat.pow_lt_pow_right (by omega) hi
  have hmask : (1#64 <<< i - 1).toNat = 2 ^ i - 1 := by
    have hpos := Nat.two_pow_pos i
    have hshift : (1#64 <<< i).toNat = 2 ^ i := by
      have hone : (1#64).toNat = 1 := rfl
      rw [BitVec.toNat_shiftLeft, hone, Nat.shiftLeft_eq, Nat.one_mul, Nat.mod_eq_of_lt hpow]
    have hone : (1 : BitVec 64).toNat = 1 := rfl
    rw [BitVec.toNat_sub, hshift, hone]
    omega
  rw [BitVec.getLsbD, hmask, Nat.testBit_two_pow_sub_one]

theorem poly32Mod2Round_spec (poly : BitVec 32) {n : Nat} (hn : n < 32) {data : BitVec 64}
    (hdata : ∀ i, 32 + n < i → data.getLsbD i = false) :
    (∀ i, 32 + n ≤ i → (poly32Mod2Round poly (32 + n) data).getLsbD i = false) ∧
      ∃ s, toPoly (poly32Mod2Round poly (32 + n) data) = toPoly data + s * crcModulus poly := by
  rw [poly32Mod2Round, shift_and_one, Nat.add_sub_cancel_left]
  cases hbit : data.getLsbD (32 + n) with
  | false =>
      refine ⟨fun i hi => ?_, 0, by simp⟩
      rcases Nat.lt_or_eq_of_le hi with hlt | rfl
      · simpa using hdata i hlt
      · simpa using hbit
  | true =>
      have hpoly (i : Nat) (hi : 32 ≤ i) : (poly.setWidth 64).getLsbD i = false := by
        rw [BitVec.getLsbD_setWidth, BitVec.getLsbD_of_ge poly i hi, Bool.and_false]
      have hshift : toPoly (poly.setWidth 64 <<< n) = X ^ n * toPoly poly := by
        rw [toPoly_shiftLeft fun i hi => hpoly i (by omega), toPoly_setWidth poly (by omega)]
      have hmasked : toPoly (data &&& (1#64 <<< (32 + n) - 1)) = toPoly data + X ^ (32 + n) := by
        ext i
        rw [coeff_add, coeff_toPoly, coeff_toPoly, coeff_X_pow, BitVec.getLsbD_and,
          lowMask_getLsbD (by omega)]
        rcases Nat.lt_trichotomy i (32 + n) with hlt | rfl | hgt
        · simp [hlt, Nat.ne_of_lt hlt]
        · simp only [Nat.lt_irrefl, decide_false, Bool.and_false, hbit, if_true]
          decide
        · simp [hdata i hgt, Nat.ne_of_gt hgt, bitCoeff]
      refine ⟨fun i hi => ?_, X ^ n, ?_⟩
      · simp only [if_true, BitVec.getLsbD_xor, BitVec.getLsbD_and, BitVec.getLsbD_shiftLeft,
          lowMask_getLsbD (show 32 + n < 64 by omega), hpoly (i - n) (by omega)]
        simp [show ¬i < 32 + n by omega]
      · simp only [if_true, toPoly_xor, hshift, hmasked, crcModulus]
        ring

theorem poly32Mod2Rounds_spec (poly : BitVec 32) {n : Nat} (hn : n ≤ 32) {data : BitVec 64}
    (hdata : ∀ i, 32 + n ≤ i → data.getLsbD i = false) :
    (∀ i, 32 ≤ i → (poly32Mod2Rounds poly n data).getLsbD i = false) ∧
      ∃ s, toPoly (poly32Mod2Rounds poly n data) = toPoly data + s * crcModulus poly := by
  induction n generalizing data with
  | zero => exact ⟨hdata, 0, by simp [poly32Mod2Rounds]⟩
  | succ n ih =>
      obtain ⟨hround, s, hs⟩ := poly32Mod2Round_spec poly (show n < 32 by omega) hdata
      obtain ⟨hrest, s', hs'⟩ := ih (by omega) hround
      refine ⟨hrest, s + s', ?_⟩
      rw [poly32Mod2Rounds, hs', hs]
      ring

/-- `Poly32Mod2` is the remainder of its data. -/
theorem toPoly_poly32Mod2 (poly : BitVec 32) {n : Nat} (hn : n ≤ 32) {data : BitVec 64}
    (hdata : ∀ i, 32 + n ≤ i → data.getLsbD i = false) :
    toPoly (poly32Mod2 (32 + n) data poly) = toPoly data %ₘ crcModulus poly := by
  obtain ⟨hlow, s, hs⟩ := poly32Mod2Rounds_spec poly hn hdata
  have hword : toPoly (poly32Mod2 (32 + n) data poly) = toPoly (poly32Mod2Rounds poly n data) := by
    rw [poly32Mod2, Nat.add_sub_cancel_left]
    ext i
    rw [coeff_toPoly, coeff_toPoly, BitVec.getLsbD_setWidth]
    by_cases hi : i < 32
    · simp [hi]
    · simp [hi, hlow i (by omega)]
  have hdegree : (toPoly (poly32Mod2Rounds poly n data)).degree < (crcModulus poly).degree := by
    rw [crcModulus_degree]
    exact degree_toPoly_lt hlow
  rw [hword, ← modByMonic_of_degree_lt (crcModulus_monic poly) hdegree, hs,
    modByMonic_add_multiple (crcModulus_monic poly)]

/-- The checksum, read backwards, is a remainder of the old one and the value. -/
theorem toPoly_crc32Checksum {size : Nat} (hsize : size ≤ 32) (acc : BitVec 32)
    (val : BitVec size) (poly : BitVec 32) :
    toPoly (reverseBits (crc32Checksum acc val poly)) =
      (X ^ size * toPoly (reverseBits acc) + X ^ 32 * toPoly (reverseBits val)) %ₘ
        crcModulus poly := by
  have hwide {w : Nat} (v : BitVec w) (i : Nat) (hi : w ≤ i) :
      (v.setWidth 64).getLsbD i = false := by
    rw [BitVec.getLsbD_setWidth, BitVec.getLsbD_of_ge v i hi, Bool.and_false]
  rw [crc32Checksum, reverseBits_reverseBits, toPoly_poly32Mod2 poly hsize, toPoly_xor,
    toPoly_shiftLeft fun i hi => hwide _ i (by omega),
    toPoly_shiftLeft fun i hi => hwide _ i (by omega), toPoly_setWidth _ (by omega),
    toPoly_setWidth _ (by omega)]
  intro i hi
  have hacc := hwide (reverseBits acc) (i - size) (by omega)
  have hval := hwide (reverseBits val) (i - 32) (by omega)
  simp only [BitVec.getLsbD_xor, BitVec.getLsbD_shiftLeft, hacc, hval, Bool.and_false,
    Bool.xor_false]

/-! ## Messages -/

inductive CrcSize where
  | byte
  | half
  | word
  | doubleWord
  deriving DecidableEq, Repr

def CrcSize.bits : CrcSize → Nat
  | byte => 8
  | half => 16
  | word => 32
  | doubleWord => 64

/-- What one instruction feeds: the low bits of a register. -/
structure Chunk where
  size : CrcSize
  value : BitVec 64
  deriving DecidableEq, Repr

namespace Chunk

def bits (k : Chunk) : List Bool := (List.range k.size.bits).map fun i => k.value.getLsbD i

def checksum (k : Chunk) (poly acc : BitVec 32) : BitVec 32 :=
  match k.size with
  | .byte => crc32Checksum acc (k.value.setWidth 8) poly
  | .half => crc32Checksum acc (k.value.setWidth 16) poly
  | .word => crc32Checksum acc (k.value.setWidth 32) poly
  | .doubleWord => crc32Checksum64 acc k.value poly

end Chunk

/-- The remainder after some more bits. -/
noncomputable def feed (poly : BitVec 32) (p : (ZMod 2)[X]) (bits : List Bool) : (ZMod 2)[X] :=
  (X ^ bits.length * p + X ^ 32 * listPoly bits) %ₘ crcModulus poly

theorem feed_append (poly : BitVec 32) (p : (ZMod 2)[X]) (bits bits' : List Bool) :
    feed poly (feed poly p bits) bits' = feed poly p (bits ++ bits') := by
  have hmod := mul_modByMonic_mod (crcModulus_monic poly) (X ^ bits'.length)
    (X ^ bits.length * p + X ^ 32 * listPoly bits)
  have hsum : X ^ bits'.length * (X ^ bits.length * p + X ^ 32 * listPoly bits) +
      X ^ 32 * listPoly bits' =
        X ^ (bits ++ bits').length * p + X ^ 32 * listPoly (bits ++ bits') := by
    rw [List.length_append, listPoly_append]
    ring
  rw [feed, feed, add_modByMonic, hmod, ← add_modByMonic, hsum, feed]

theorem feed_nil (poly acc : BitVec 32) : feed poly (toPoly acc) [] = toPoly acc := by
  have hdegree : (toPoly acc).degree < (crcModulus poly).degree := by
    rw [crcModulus_degree]
    exact degree_toPoly_word acc
  simp only [feed, List.length_nil, pow_zero, one_mul, listPoly_nil, mul_zero, add_zero]
  exact modByMonic_of_degree_lt (crcModulus_monic poly) hdegree

/-- The bits of a value, low bit first, are those of the reversed value, high power first. -/
theorem listPoly_bits {size : Nat} (hsize : size ≤ 64) (value : BitVec 64) :
    listPoly ((List.range size).map fun i => value.getLsbD i) =
      toPoly (reverseBits (value.setWidth size)) := by
  rw [← listPoly_ofWord]
  congr 1
  apply List.map_congr_left
  intro i hi
  rw [List.mem_range] at hi
  rw [reverseBits_getLsbD _ (by omega), BitVec.getLsbD_setWidth]
  simp [show size - 1 - (size - 1 - i) = i by omega, hi]

theorem feed_crc32Checksum (poly acc : BitVec 32) {size : Nat} (hsize : size ≤ 32)
    (value : BitVec 64) :
    toPoly (reverseBits (crc32Checksum acc (value.setWidth size) poly)) =
      feed poly (toPoly (reverseBits acc)) ((List.range size).map fun i => value.getLsbD i) := by
  rw [toPoly_crc32Checksum hsize, feed, List.length_map, List.length_range,
    listPoly_bits (by omega)]

theorem feed_checksum (poly acc : BitVec 32) (k : Chunk) :
    toPoly (reverseBits (k.checksum poly acc)) = feed poly (toPoly (reverseBits acc)) k.bits := by
  obtain ⟨size, value⟩ := k
  cases size with
  | byte => exact feed_crc32Checksum poly acc (by omega) value
  | half => exact feed_crc32Checksum poly acc (by omega) value
  | word => exact feed_crc32Checksum poly acc (by omega) value
  | doubleWord =>
      have hsplit : (List.range 64).map (fun i => value.getLsbD i) =
          (List.range 32).map (fun i => value.getLsbD i) ++
            (List.range 32).map fun i => (value >>> 32).getLsbD i := by
        have hrange := @List.range_add 32 32
        rw [show 32 + 32 = 64 from rfl] at hrange
        rw [hrange, List.map_append, List.map_map]
        congr 1
      rw [Chunk.checksum, crc32Checksum64, Chunk.bits, CrcSize.bits, hsplit, ← feed_append,
        feed_crc32Checksum poly _ (by omega), feed_crc32Checksum poly _ (by omega)]

/-- A sequence of chunks leaves the remainder of the whole message. -/
theorem feed_checksums (poly acc : BitVec 32) (chunks : List Chunk) :
    toPoly (reverseBits (chunks.foldl (fun acc k => k.checksum poly acc) acc)) =
      feed poly (toPoly (reverseBits acc)) (chunks.flatMap Chunk.bits) := by
  induction chunks generalizing acc with
  | nil => exact (feed_nil poly (reverseBits acc)).symm
  | cons k chunks ih =>
      rw [List.foldl_cons, ih, feed_checksum, feed_append, List.flatMap_cons]

/-! ## Instructions -/

/-- The polynomial and the size of a checksum instruction. -/
def crcOperation? (w : Word) : Option (BitVec 32 × CrcSize) :=
  match (w &&& 0xffe0fc00).toNat with
  | 0x1ac04000 => some (CRC32_POLY, .byte)
  | 0x1ac04400 => some (CRC32_POLY, .half)
  | 0x1ac04800 => some (CRC32_POLY, .word)
  | 0x9ac04c00 => some (CRC32_POLY, .doubleWord)
  | 0x1ac05000 => some (CRC32C_POLY, .byte)
  | 0x1ac05400 => some (CRC32C_POLY, .half)
  | 0x1ac05800 => some (CRC32C_POLY, .word)
  | 0x9ac05c00 => some (CRC32C_POLY, .doubleWord)
  | _ => none

/-- The checksum cases of `VisitDataProcessing2Source`; the others are `other`. -/
def visitDataProcessing2Source (other : Leaf) : Leaf := fun w c =>
  match crcOperation? w with
  | some (poly, size) =>
      let chunk : Chunk := ⟨size, c.readXRegister w.getRm⟩
      .done (c.writeReg false w.getRd ((chunk.checksum poly (c.readWRegister w.getRn)).setWidth 64)
        .zeroRegister)
  | none => other w c

/-- The instruction accumulates in the register `a` from another one. -/
structure Accumulates (poly : BitVec 32) (a : BitVec 5) (w : Word) : Prop where
  operation : ∃ size, crcOperation? w = some (poly, size)
  destination : w.getRd = a
  accumulator : w.getRn = a
  source : w.getRm ≠ a

/-- What the instruction feeds in a state; for another one, nothing. -/
def chunk? (c : Core) (w : Word) : Option Chunk :=
  (crcOperation? w).map fun op => ⟨op.2, c.readXRegister w.getRm⟩

/-- The bits that a sequence of checksum instructions feeds. -/
def message (c : Core) (ws : List Word) : List Bool := (ws.filterMap (chunk? c)).flatMap Chunk.bits

/-- One instruction after the other. -/
def runLeaves (leaf : Leaf) : List Word → Core → Except (String × Core) Core
  | [], c => .ok c
  | w :: ws, c => do runLeaves leaf ws (← (leaf w c).quiet)

theorem runLeaves_crc {other : Leaf} {poly : BitVec 32} {a : BitVec 5} (ha : a ≠ 31)
    {ws : List Word} (hws : ∀ w ∈ ws, Accumulates poly a w) (c : Core) :
    ∃ c', runLeaves (visitDataProcessing2Source other) ws c = .ok c' ∧
      c'.readWRegister a = (ws.filterMap (chunk? c)).foldl
        (fun acc k => k.checksum poly acc) (c.readWRegister a) := by
  induction ws generalizing c with
  | nil => exact ⟨c, rfl, rfl⟩
  | cons w ws ih =>
      have hw := hws w List.mem_cons_self
      obtain ⟨size, hop⟩ := hw.operation
      let chunk : Chunk := ⟨size, c.readXRegister w.getRm⟩
      let sum := chunk.checksum poly (c.readWRegister a)
      let next := c.writeReg false a (sum.setWidth 64) .zeroRegister
      have hstep : (visitDataProcessing2Source other w c).quiet = .ok next := by
        simp only [visitDataProcessing2Source, hop, hw.destination, hw.accumulator]
        rfl
      have hnext : next = c.writeRegister a.toFin (sum.setWidth 64) := by
        simp only [next]
        rw [Core.writeReg, if_neg fun h => ha h.1, sized_narrow (Nat.le_refl 32)]
      have hsum : next.readWRegister a = sum := by
        rw [hnext, Core.readWRegister, Core.readXRegister, if_neg ha]
        simp [Core.writeRegister]
      have hkept (r : BitVec 5) (hr : r ≠ a) : next.readXRegister r = c.readXRegister r := by
        have hfin : r.toFin ≠ a.toFin := fun h => hr (BitVec.toFin_inj.mp h)
        rw [hnext]
        simp [Core.readXRegister, Core.writeRegister, hfin]
      have hchunks : ws.filterMap (chunk? next) = ws.filterMap (chunk? c) := by
        apply List.filterMap_congr
        intro v hv
        rw [chunk?, chunk?, hkept _ (hws v (List.mem_cons_of_mem w hv)).source]
      obtain ⟨c', hrun, hacc⟩ := ih (fun v hv => hws v (List.mem_cons_of_mem w hv)) next
      refine ⟨c', ?_, ?_⟩
      · rw [runLeaves, hstep]
        exact hrun
      · rw [hacc, hchunks, hsum]
        simp [chunk?, hop, sum, chunk]

/--
However a message is cut into checksum instructions, and whichever registers
hold the pieces, the accumulator ends with the same value.
-/
theorem crc_recut {other : Leaf} {poly : BitVec 32} {a : BitVec 5} (ha : a ≠ 31)
    {ws ws' : List Word} (hws : ∀ w ∈ ws, Accumulates poly a w)
    (hws' : ∀ w ∈ ws', Accumulates poly a w) {c d : Core}
    (hstart : d.readWRegister a = c.readWRegister a) (hmessage : message c ws = message d ws') :
    ∃ c' d', runLeaves (visitDataProcessing2Source other) ws c = .ok c' ∧
      runLeaves (visitDataProcessing2Source other) ws' d = .ok d' ∧
      d'.readWRegister a = c'.readWRegister a := by
  obtain ⟨c', hrun, hacc⟩ := runLeaves_crc ha hws c
  obtain ⟨d', hrun', hacc'⟩ := runLeaves_crc ha hws' d
  refine ⟨c', d', hrun, hrun', ?_⟩
  apply reverseBits_injective
  apply toPoly_injective
  rw [hacc, hacc', feed_checksums, feed_checksums, hstart]
  rw [message, message] at hmessage
  rw [hmessage]

/-- Two bytes and the half word that they make up, and an accumulator. -/
def byteRegisters : Core :=
  { (default : Core) with
    registers := fun i => match i.val with
      | 0 => 0xffffffff
      | 1 => 0x0201
      | 2 => 0x01
      | 3 => 0x02
      | _ => 0 }

theorem accumulates_word {poly : BitVec 32} {w : Word}
    (h : (crcOperation? w).map Prod.fst = some poly ∧ w.getRd = 0 ∧ w.getRn = 0 ∧ w.getRm ≠ 0) :
    Accumulates poly 0 w := by
  obtain ⟨hop, hd, hn, hm⟩ := h
  obtain ⟨⟨found, size⟩, hfound, rfl⟩ := Option.map_eq_some_iff.mp hop
  exact ⟨⟨size, hfound⟩, hd, hn, hm⟩

theorem accumulates_three :
    ∀ w ∈ [0x1ac14400, 0x1ac24000, 0x1ac34000], Accumulates CRC32_POLY 0 w := by
  intro w hw
  simp only [List.mem_cons, List.not_mem_nil, or_false] at hw
  rcases hw with rfl | rfl | rfl <;> exact accumulates_word (by decide)

/-- `CRC32H W0, W0, W1` against `CRC32B W0, W0, W2` and `CRC32B W0, W0, W3`. -/
theorem crc_recut_bytes :
    ∃ c' d', runLeaves (visitDataProcessing2Source fun _ c => .done c) [0x1ac14400]
        byteRegisters = .ok c' ∧
      runLeaves (visitDataProcessing2Source fun _ c => .done c) [0x1ac24000, 0x1ac34000]
        byteRegisters = .ok d' ∧
      d'.readWRegister 0 = c'.readWRegister 0 :=
  crc_recut (by decide) (fun w hw => accumulates_three w (by simp_all))
    (fun w hw => accumulates_three w (by simp_all)) rfl (by decide)

end GabyVm.Aarch64
