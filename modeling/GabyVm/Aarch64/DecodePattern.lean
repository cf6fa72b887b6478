import GabyVm.Aarch64.Instruction
import GabyVm.Foundation.BitCompress
import Mathlib.Tactic.NormNum

/-!
# Decode patterns

A node of the decode graph samples some bits of a word and compares them with
patterns of the symbols 0, 1 and x.  A pattern is encoded two bits to a symbol
behind an end marker.  To index a table with the sampled bits, a pattern is
reordered by bit position and turned into a mask and a value.
-/

namespace GabyVm.Aarch64

open GabyVm.Foundation

/-! ## Encoded patterns -/

inductive PatternSymbol where
  | symbol0
  | symbol1
  | symbolX
  deriving DecidableEq, Repr

namespace PatternSymbol

def code : PatternSymbol → Nat
  | symbol0 => 0
  | symbol1 => 1
  | symbolX => 2

theorem code_lt (s : PatternSymbol) : s.code < 3 := by cases s <;> decide

end PatternSymbol

def kEndOfPattern : BitVec 32 := 3

def strToTwoBitPattern (x : List Char) (a : BitVec 32) : BitVec 32 :=
  x.foldl (fun a c => a <<< 2 ||| if c = 'x' then 2 else BitVec.ofNat 32 c.toNat - 48) a

def bitPattern (s : String) : BitVec 32 := strToTwoBitPattern s.toList kEndOfPattern

def highestSetBitPosition (value : BitVec 32) : Nat := value.toNat.log2

def getPatternLength (pattern : BitVec 32) : Nat := highestSetBitPosition pattern / 2

/-- The scan stops at the end marker; no pattern has more than 16 symbols before it. -/
def patternContains (symbol : PatternSymbol) : Nat → BitVec 32 → Bool
  | 0, _ => false
  | fuel + 1, pattern =>
      if pattern &&& 3 = kEndOfPattern then false
      else if pattern &&& 3 = BitVec.ofNat 32 symbol.code then true
      else patternContains symbol fuel (pattern >>> 2)

def patternContainsSymbol (pattern : BitVec 32) (symbol : PatternSymbol) : Bool :=
  patternContains symbol 16 pattern

def getSymbolAt (pattern : BitVec 32) (pos : Nat) : BitVec 32 :=
  (pattern >>> (2 * (getPatternLength pattern - pos - 1))) &&& 3

/-- The symbols behind the end marker, the first one highest. -/
def encodeSymbols (symbols : List PatternSymbol) : BitVec 32 :=
  symbols.foldl (fun a s => a <<< 2 ||| BitVec.ofNat 32 s.code) kEndOfPattern

/-! ### Encodings as numbers -/

def symbolsNat (a : Nat) (symbols : List PatternSymbol) : Nat :=
  symbols.foldl (fun a s => 4 * a + s.code) a

theorem symbolsNat_bounds (a : Nat) (symbols : List PatternSymbol) :
    a * 4 ^ symbols.length ≤ symbolsNat a symbols ∧
      symbolsNat a symbols < (a + 1) * 4 ^ symbols.length := by
  induction symbols generalizing a with
  | nil => simp [symbolsNat]
  | cons s symbols ih =>
      have hs := s.code_lt
      obtain ⟨hlow, hhigh⟩ := ih (4 * a + s.code)
      have hpow : 4 ^ (s :: symbols).length = 4 * 4 ^ symbols.length := by
        rw [List.length_cons, pow_succ, Nat.mul_comm]
      have hlow' : a * (4 * 4 ^ symbols.length) ≤ (4 * a + s.code) * 4 ^ symbols.length := by
        rw [← Nat.mul_assoc]
        exact Nat.mul_le_mul_right _ (by omega)
      have hhigh' : (4 * a + s.code + 1) * 4 ^ symbols.length ≤
          (a + 1) * (4 * 4 ^ symbols.length) := by
        rw [← Nat.mul_assoc]
        exact Nat.mul_le_mul_right _ (by omega)
      rw [hpow]
      exact ⟨hlow'.trans hlow, hhigh.trans_le hhigh'⟩

theorem symbolsNat_append (a : Nat) (l l' : List PatternSymbol) :
    symbolsNat a (l ++ l') = symbolsNat (symbolsNat a l) l' := List.foldl_append

/-- The encoding does not overflow while there are at most 15 symbols. -/
theorem encodeSymbols_toNat {symbols : List PatternSymbol} (h : symbols.length ≤ 15) :
    (encodeSymbols symbols).toNat = symbolsNat 3 symbols := by
  induction symbols using List.reverseRecOn with
  | nil => rfl
  | append_singleton symbols s ih =>
      have hs := s.code_lt
      rw [List.length_append, List.length_singleton] at h
      have hshort : symbols.length ≤ 14 := by omega
      have hbound := (symbolsNat_bounds 3 symbols).2
      have hpow : 4 ^ symbols.length ≤ 4 ^ 14 := Nat.pow_le_pow_right (by omega) hshort
      have hstep : encodeSymbols (symbols ++ [s]) =
          encodeSymbols symbols <<< 2 ||| BitVec.ofNat 32 s.code := List.foldl_append
      have hfits : symbolsNat 3 symbols <<< 2 < 2 ^ 32 := by
        rw [Nat.shiftLeft_eq]
        omega
      have hcode : s.code % 2 ^ 32 = s.code := Nat.mod_eq_of_lt (by omega)
      rw [symbolsNat_append, hstep, BitVec.toNat_or, BitVec.toNat_shiftLeft,
        ih (by omega), Nat.mod_eq_of_lt hfits, BitVec.toNat_ofNat, hcode,
        ← Nat.shiftLeft_add_eq_or_of_lt (by omega : s.code < 2 ^ 2), Nat.shiftLeft_eq]
      simp only [symbolsNat, List.foldl_cons, List.foldl_nil]
      omega

theorem four_pow_eq (n : Nat) : 4 ^ n = 2 ^ (2 * n) := by
  rw [pow_mul]
  norm_num

theorem getPatternLength_encode {symbols : List PatternSymbol} (h : symbols.length ≤ 15) :
    getPatternLength (encodeSymbols symbols) = symbols.length := by
  obtain ⟨hlow, hhigh⟩ := symbolsNat_bounds 3 symbols
  have hpow : 4 ^ symbols.length = 2 ^ (2 * symbols.length) := four_pow_eq _
  have hlog : (symbolsNat 3 symbols).log2 = 2 * symbols.length + 1 := by
    rw [Nat.log2_eq_iff (by omega)]
    rw [hpow] at hlow hhigh
    rw [pow_succ, pow_succ]
    omega
  rw [getPatternLength, highestSetBitPosition, encodeSymbols_toNat h, hlog]
  omega

theorem getSymbolAt_encode {symbols : List PatternSymbol} (h : symbols.length ≤ 15) {pos : Nat}
    {s : PatternSymbol} (hs : symbols[pos]? = some s) :
    getSymbolAt (encodeSymbols symbols) pos = BitVec.ofNat 32 s.code := by
  obtain ⟨hpos, hget⟩ := List.getElem?_eq_some_iff.mp hs
  have hcode := s.code_lt
  have hsplit : symbols = symbols.take pos ++ s :: symbols.drop (pos + 1) := by
    rw [← hget, List.getElem_cons_drop, List.take_append_drop]
  have hlen : (symbols.drop (pos + 1)).length = symbols.length - pos - 1 := by
    rw [List.length_drop]
    omega
  have hnat : symbolsNat 3 symbols =
      symbolsNat (4 * symbolsNat 3 (symbols.take pos) + s.code) (symbols.drop (pos + 1)) := by
    conv_lhs => rw [hsplit, symbolsNat_append]
    rfl
  have hdiv : symbolsNat 3 symbols / 4 ^ (symbols.length - pos - 1) =
      4 * symbolsNat 3 (symbols.take pos) + s.code := by
    obtain ⟨hlow, hhigh⟩ := symbolsNat_bounds (4 * symbolsNat 3 (symbols.take pos) + s.code)
      (symbols.drop (pos + 1))
    rw [← hnat, hlen] at hlow hhigh
    exact Nat.div_eq_of_lt_le hlow hhigh
  apply BitVec.eq_of_toNat_eq
  have hmask : (3 : BitVec 32).toNat = 2 ^ 2 - 1 := rfl
  rw [getSymbolAt, getPatternLength_encode h, BitVec.toNat_and, BitVec.toNat_ushiftRight,
    encodeSymbols_toNat h, hmask, Nat.and_two_pow_sub_one_eq_mod, Nat.shiftRight_eq_div_pow,
    ← four_pow_eq, hdiv, BitVec.toNat_ofNat]
  omega

/-! ### The scan for a symbol -/

theorem patternContains_encode {symbols : List PatternSymbol} {fuel : Nat}
    (h : symbols.length ≤ 15) (hfuel : symbols.length < fuel) (symbol : PatternSymbol) :
    patternContains symbol fuel (encodeSymbols symbols) = decide (symbol ∈ symbols) := by
  induction symbols using List.reverseRecOn generalizing fuel with
  | nil =>
      cases fuel with
      | zero => omega
      | succ fuel => rfl
  | append_singleton symbols s ih =>
      cases fuel with
      | zero => omega
      | succ fuel =>
          rw [List.length_append, List.length_singleton] at h hfuel
          have hcode := s.code_lt
          have hnat : (encodeSymbols (symbols ++ [s])).toNat = symbolsNat 3 (symbols ++ [s]) :=
            encodeSymbols_toNat (by rw [List.length_append, List.length_singleton]; exact h)
          rw [symbolsNat_append] at hnat
          have hlow : encodeSymbols (symbols ++ [s]) &&& 3 = BitVec.ofNat 32 s.code := by
            apply BitVec.eq_of_toNat_eq
            have hmask : (3 : BitVec 32).toNat = 2 ^ 2 - 1 := rfl
            rw [BitVec.toNat_and, hnat, hmask, Nat.and_two_pow_sub_one_eq_mod,
              BitVec.toNat_ofNat]
            simp only [symbolsNat, List.foldl_cons, List.foldl_nil]
            omega
          have hrest : encodeSymbols (symbols ++ [s]) >>> 2 = encodeSymbols symbols := by
            apply BitVec.eq_of_toNat_eq
            rw [BitVec.toNat_ushiftRight, hnat, encodeSymbols_toNat (by omega),
              Nat.shiftRight_eq_div_pow]
            simp only [symbolsNat, List.foldl_cons, List.foldl_nil]
            omega
          have hend : ¬BitVec.ofNat 32 s.code = kEndOfPattern := by cases s <;> decide
          have hsame : BitVec.ofNat 32 s.code = BitVec.ofNat 32 symbol.code ↔ symbol = s := by
            cases s <;> cases symbol <;> decide
          simp only [patternContains, hlow, hrest, if_neg hend, hsame,
            ih (show symbols.length ≤ 15 by omega) (show symbols.length < fuel by omega),
            List.mem_append, List.mem_singleton]
          by_cases heq : symbol = s <;> simp [heq]

end GabyVm.Aarch64
