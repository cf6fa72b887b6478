import GabyVm.Aarch64.DecodePattern
import Mathlib.Data.List.Nodup

/-!
# Patterns against sampled bits

A node tests a word either by one mask and value over the instruction bits, or
by the sampled bits moved together and looked up in a table.  Both tests agree
with the plain reading of the pattern: every sampled bit is the symbol at its
place, or that symbol is an x.
-/

namespace GabyVm.Aarch64

open GabyVm.Foundation

/-! ## Sampled bits -/

namespace Word

def compress (w : Word) (mask : Word) : Word := Foundation.compress 5 w mask

end Word

def generateSampledBitsMask (sampledBits : List Nat) : Word :=
  sampledBits.foldl (fun mask bit => mask ||| 1#32 <<< bit) 0

theorem generateSampledBitsMask_from (sampledBits : List Nat) (mask : Word) (p : Nat) :
    (sampledBits.foldl (fun mask bit => mask ||| 1#32 <<< bit) mask).getLsbD p =
      (mask.getLsbD p || decide (p < 32 ∧ p ∈ sampledBits)) := by
  induction sampledBits generalizing mask with
  | nil => simp
  | cons bit rest ih =>
      rw [List.foldl_cons, ih, BitVec.getLsbD_or, BitVec.getLsbD_shiftLeft, BitVec.getLsbD_one]
      by_cases hp : p < 32
      · by_cases hbit : p = bit
        · subst hbit
          simp [hp]
        · by_cases hlow : p < bit
          · simp [hp, hlow, hbit]
          · have hne : p - bit ≠ 0 := by omega
            simp [hp, hlow, hbit, hne]
      · simp [hp]

theorem generateSampledBitsMask_getLsbD (sampledBits : List Nat) (p : Nat) :
    (generateSampledBitsMask sampledBits).getLsbD p = decide (p < 32 ∧ p ∈ sampledBits) := by
  rw [generateSampledBitsMask, generateSampledBitsMask_from]
  simp

/-! ## Ordered patterns -/

def kNoSymbols : BitVec 64 := -1

/-- One sampled bit of `GenerateOrderedPattern`: its symbol takes the place of the marker. -/
def placeSymbol (temp : BitVec 64) (bit : Nat) (sym : BitVec 32) : BitVec 64 :=
  (temp ^^^ ((kEndOfPattern.setWidth 64) <<< (bit * 2))) ||| ((sym.setWidth 64) <<< (bit * 2))

def slot (temp : BitVec 64) (bit : Nat) : BitVec 32 := (temp >>> (2 * bit)).setWidth 32 &&& 3

def placeSymbols (sampledBits : List Nat) (pattern : BitVec 32) : BitVec 64 :=
  (List.range sampledBits.length).foldl
    (fun temp i => placeSymbol temp (sampledBits.getD i 0) (getSymbolAt pattern i)) kNoSymbols

/-- The symbols of a pattern by bit position, the one for the highest position first. -/
def generateOrderedPattern (sampledBits : List Nat) (pattern : BitVec 32) : BitVec 32 :=
  let temp := placeSymbols sampledBits pattern
  (List.range 32).reverse.foldl
    (fun result bit =>
      if slot temp bit ≠ kEndOfPattern then result <<< 2 ||| slot temp bit else result)
    kEndOfPattern

/-- The mask and value that `TryCompileOptimisedDecodeTable` makes of a pattern. -/
def singleDecode (sampledBits : List Nat) (pattern : BitVec 32) : Word × Word :=
  (List.range sampledBits.length).foldl
    (fun (mask, value) i =>
      (mask ||| 1#32 <<< sampledBits.getD i 0,
        if getSymbolAt pattern i = 1 then value ||| 1#32 <<< sampledBits.getD i 0 else value))
    (0, 0)

def generateMaskValuePair (pattern : BitVec 32) : Word × Word :=
  (List.range (getPatternLength pattern)).foldl
    (fun (mask, value) i =>
      let sym := getSymbolAt pattern i
      (mask <<< 1 ||| if sym = 2 then 0 else 1, value <<< 1 ||| sym &&& 1))
    (0, 0)

/-! ### Slots -/

theorem slot_getLsbD (temp : BitVec 64) (bit : Nat) {k : Nat} (hk : k < 2) :
    (slot temp bit).getLsbD k = temp.getLsbD (2 * bit + k) := by
  have hthree : (3 : BitVec 32).getLsbD k = true := by
    rcases (by omega : k = 0 ∨ k = 1) with rfl | rfl <;> rfl
  rw [slot, BitVec.getLsbD_and, hthree, BitVec.getLsbD_setWidth, BitVec.getLsbD_ushiftRight]
  simp [show k < 32 by omega]

theorem symbol_getLsbD_high {v : BitVec 32} (hv : v.toNat < 4) {k : Nat} (hk : 2 ≤ k) :
    v.getLsbD k = false := by
  have hpow : 2 ^ 2 ≤ 2 ^ k := Nat.pow_le_pow_right (by omega) hk
  exact Nat.testBit_lt_two_pow (Nat.lt_of_lt_of_le hv hpow)

theorem slot_eq_iff (temp : BitVec 64) (bit : Nat) (sym : BitVec 32) (hsym : sym.toNat < 4) :
    slot temp bit = sym ↔ ∀ k < 2, temp.getLsbD (2 * bit + k) = sym.getLsbD k := by
  have hslot : (slot temp bit).toNat < 4 := by
    have hand : (slot temp bit).toNat ≤ (3 : BitVec 32).toNat := by
      rw [slot, BitVec.toNat_and]
      exact Nat.and_le_right
    exact Nat.lt_of_le_of_lt hand (by decide)
  constructor
  · intro h k hk
    rw [← slot_getLsbD temp bit hk, h]
  · intro h
    apply BitVec.eq_of_getLsbD_eq
    intro k _
    by_cases hk : k < 2
    · rw [slot_getLsbD temp bit hk, h k hk]
    · rw [symbol_getLsbD_high hslot (by omega), symbol_getLsbD_high hsym (by omega)]

theorem code_toNat_lt (s : PatternSymbol) : (BitVec.ofNat 32 s.code).toNat < 4 := by
  cases s <;> decide

theorem placeSymbol_getLsbD (temp : BitVec 64) {bit : Nat} (sym : BitVec 32) {q k : Nat}
    (hq : q < 32) (hk : k < 2) :
    (placeSymbol temp bit sym).getLsbD (2 * q + k) =
      ((temp.getLsbD (2 * q + k) ^^
          (decide (2 * bit ≤ 2 * q + k) && kEndOfPattern.getLsbD (2 * q + k - 2 * bit))) ||
        (decide (2 * bit ≤ 2 * q + k) && sym.getLsbD (2 * q + k - 2 * bit))) := by
  have hin : 2 * q + k < 64 := by omega
  rw [placeSymbol, Nat.mul_comm bit 2, BitVec.getLsbD_or, BitVec.getLsbD_xor,
    BitVec.getLsbD_shiftLeft, BitVec.getLsbD_shiftLeft, BitVec.getLsbD_setWidth,
    BitVec.getLsbD_setWidth]
  have hin' : 2 * q + k - 2 * bit < 64 := by omega
  by_cases hlow : 2 * q + k < 2 * bit
  · simp [hlow, Nat.not_le.mpr hlow]
  · simp [hin, hin', hlow, Nat.not_lt.mp hlow]

theorem slot_placeSymbol_self {temp : BitVec 64} {bit : Nat} {sym : BitVec 32} (hbit : bit < 32)
    (hfree : slot temp bit = kEndOfPattern) (hsym : sym.toNat < 4) :
    slot (placeSymbol temp bit sym) bit = sym := by
  rw [slot_eq_iff _ _ _ hsym]
  intro k hk
  have hset := (slot_eq_iff temp bit kEndOfPattern (by decide)).mp hfree k hk
  rw [placeSymbol_getLsbD temp sym hbit hk, hset, Nat.add_sub_cancel_left]
  simp

theorem slot_placeSymbol_ne {temp : BitVec 64} {bit q : Nat} {sym : BitVec 32} (hq : q < 32)
    (hne : q ≠ bit) (hsym : sym.toNat < 4) :
    slot (placeSymbol temp bit sym) q = slot temp q := by
  apply BitVec.eq_of_getLsbD_eq
  intro k hk32
  by_cases hk : k < 2
  · rw [slot_getLsbD _ _ hk, slot_getLsbD _ _ hk, placeSymbol_getLsbD temp sym hq hk]
    by_cases hlow : 2 * bit ≤ 2 * q + k
    · have hfar : 2 ≤ 2 * q + k - 2 * bit := by omega
      rw [symbol_getLsbD_high (v := kEndOfPattern) (by decide) hfar,
        symbol_getLsbD_high hsym hfar]
      simp
    · simp [hlow]
  · have hthree : (3 : BitVec 32).getLsbD k = false :=
      symbol_getLsbD_high (by decide) (by omega)
    rw [slot, slot, BitVec.getLsbD_and, BitVec.getLsbD_and, hthree, Bool.and_false, Bool.and_false]

/-- The slots after the first `i` sampled bits. -/
structure Placed (sampledBits : List Nat) (symbols : List PatternSymbol) (i : Nat)
    (temp : BitVec 64) : Prop where
  there : ∀ j < i, ∀ bit s, sampledBits[j]? = some bit → symbols[j]? = some s →
    slot temp bit = BitVec.ofNat 32 s.code
  free : ∀ q < 32, (∀ j < i, sampledBits[j]? ≠ some q) → slot temp q = kEndOfPattern

theorem placed_start (sampledBits : List Nat) (symbols : List PatternSymbol) :
    Placed sampledBits symbols 0 kNoSymbols where
  there := fun j hj => absurd hj (by omega)
  free := by
    intro q hq _
    rw [slot_eq_iff _ _ _ (by decide)]
    intro k hk
    have hin : 2 * q + k < 64 := by omega
    have hthree : kEndOfPattern.getLsbD k = true := by
      rcases (by omega : k = 0 ∨ k = 1) with rfl | rfl <;> rfl
    have hones : kNoSymbols = BitVec.allOnes 64 := rfl
    rw [hthree, hones, BitVec.getLsbD_allOnes]
    simp [hin]

theorem placed_step {sampledBits : List Nat} {symbols : List PatternSymbol} {i bit : Nat}
    {temp : BitVec 64} {s : PatternSymbol} (h : Placed sampledBits symbols i temp)
    (hnodup : sampledBits.Nodup) (hin : ∀ bit ∈ sampledBits, bit < 32)
    (hbit : sampledBits[i]? = some bit) (hs : symbols[i]? = some s) :
    Placed sampledBits symbols (i + 1) (placeSymbol temp bit (BitVec.ofNat 32 s.code)) where
  there := by
    intro j hj bit' s' hbit' hs'
    rcases Nat.lt_or_eq_of_le (Nat.lt_succ_iff.mp hj) with hlt | rfl
    · have hne : bit' ≠ bit := by
        intro heq
        rw [heq] at hbit'
        obtain ⟨hlen, -⟩ := List.getElem?_eq_some_iff.mp hbit'
        have hsame := (List.getElem?_inj hlen hnodup).mp (hbit'.trans hbit.symm)
        omega
      rw [slot_placeSymbol_ne (hin bit' (List.mem_of_getElem? hbit')) hne (code_toNat_lt s)]
      exact h.there j hlt bit' s' hbit' hs'
    · rw [hbit] at hbit'
      rw [hs] at hs'
      cases hbit'
      cases hs'
      refine slot_placeSymbol_self (hin bit (List.mem_of_getElem? hbit)) ?_ (code_toNat_lt s)
      refine h.free bit (hin bit (List.mem_of_getElem? hbit)) fun j' hj' hsame => ?_
      obtain ⟨hlen, -⟩ := List.getElem?_eq_some_iff.mp hsame
      have hidx := (List.getElem?_inj hlen hnodup).mp (hsame.trans hbit.symm)
      omega
  free := by
    intro q hq hall
    have hne : q ≠ bit := fun heq => hall i (Nat.lt_succ_self i) (heq ▸ hbit)
    rw [slot_placeSymbol_ne hq hne (code_toNat_lt s)]
    exact h.free q hq fun j hj => hall j (Nat.lt_succ_of_lt hj)

/-! ### The plain reading -/

namespace PatternSymbol

def agrees : PatternSymbol → Bool → Bool
  | symbol0, b => !b
  | symbol1, b => b
  | symbolX, _ => true

end PatternSymbol

def symbolsMatch (sampledBits : List Nat) (symbols : List PatternSymbol) (w : Word) : Bool :=
  (sampledBits.zip symbols).all fun (bit, s) => s.agrees (w.getLsbD bit)

/-- A pattern that a node can sample. -/
structure Samples (sampledBits : List Nat) (symbols : List PatternSymbol) : Prop where
  nodup : sampledBits.Nodup
  inWord : ∀ bit ∈ sampledBits, bit < 32
  length_eq : symbols.length = sampledBits.length
  length_le : symbols.length ≤ 15

def symbolAt (sampledBits : List Nat) (symbols : List PatternSymbol) (bit : Nat) : PatternSymbol :=
  symbols.getD (sampledBits.idxOf bit) .symbolX

def orderedSymbols (sampledBits : List Nat) (symbols : List PatternSymbol) : List PatternSymbol :=
  ((List.range 32).reverse.filter (· ∈ sampledBits)).map (symbolAt sampledBits symbols)

section Samples

variable {sampledBits : List Nat} {symbols : List PatternSymbol}

theorem Samples.symbolAt_idx (h : Samples sampledBits symbols) {bit : Nat}
    (hbit : bit ∈ sampledBits) :
    symbols[sampledBits.idxOf bit]? = some (symbolAt sampledBits symbols bit) := by
  have hlen : sampledBits.idxOf bit < symbols.length := by
    rw [h.length_eq]
    exact List.idxOf_lt_length_iff.mpr hbit
  rw [symbolAt, List.getD_eq_getElem?_getD, List.getElem?_eq_getElem hlen, Option.getD_some]

theorem Samples.symbolsMatch_iff (h : Samples sampledBits symbols) (w : Word) :
    symbolsMatch sampledBits symbols w = true ↔
      ∀ bit ∈ sampledBits, (symbolAt sampledBits symbols bit).agrees (w.getLsbD bit) = true := by
  rw [symbolsMatch, List.all_eq_true]
  constructor
  · intro hall bit hbit
    have hlen := List.idxOf_lt_length_iff.mpr hbit
    have hzip : (sampledBits.zip symbols)[sampledBits.idxOf bit]? =
        some (bit, symbolAt sampledBits symbols bit) := by
      rw [List.getElem?_zip_eq_some]
      exact ⟨by rw [List.getElem?_eq_getElem hlen, List.getElem_idxOf], h.symbolAt_idx hbit⟩
    exact hall _ (List.mem_of_getElem? hzip)
  · rintro hall ⟨bit, s⟩ hmem
    obtain ⟨i, hi⟩ := List.mem_iff_getElem?.mp hmem
    obtain ⟨hbit, hs⟩ := List.getElem?_zip_eq_some.mp hi
    simp only at hbit hs
    have hin := List.mem_of_getElem? hbit
    have hidx : sampledBits.idxOf bit = i := by
      obtain ⟨hlen, hget⟩ := List.getElem?_eq_some_iff.mp hbit
      rw [← hget]
      exact h.nodup.idxOf_getElem i hlen
    have hat := h.symbolAt_idx hin
    rw [hidx, hs] at hat
    have hagrees := hall bit hin
    rw [← Option.some.inj hat] at hagrees
    exact hagrees

theorem Samples.placed (h : Samples sampledBits symbols) {i : Nat} (hi : i ≤ sampledBits.length) :
    Placed sampledBits symbols i ((List.range i).foldl (fun temp i =>
      placeSymbol temp (sampledBits.getD i 0) (getSymbolAt (encodeSymbols symbols) i))
        kNoSymbols) := by
  induction i with
  | zero => exact placed_start sampledBits symbols
  | succ i ih =>
      have hlen : i < symbols.length := by
        rw [h.length_eq]
        omega
      have hs := List.getElem?_eq_getElem hlen
      have hbit : sampledBits[i]? = some (sampledBits.getD i 0) := by
        rw [List.getD_eq_getElem?_getD, List.getElem?_eq_getElem (by omega), Option.getD_some]
      rw [List.range_succ, List.foldl_append, List.foldl_cons, List.foldl_nil,
        getSymbolAt_encode h.length_le hs]
      exact placed_step (ih (by omega)) h.nodup h.inWord hbit hs

/-- The scan of the slots meets the symbols of the sampled bits. -/
theorem foldl_slots {temp : BitVec 64} {bits : List Nat} (r : BitVec 32)
    (hslot : ∀ bit ∈ bits, slot temp bit =
      if bit ∈ sampledBits then BitVec.ofNat 32 (symbolAt sampledBits symbols bit).code
      else kEndOfPattern) :
    bits.foldl (fun (result : BitVec 32) bit =>
        if slot temp bit ≠ kEndOfPattern then result <<< 2 ||| slot temp bit else result) r =
      ((bits.filter (· ∈ sampledBits)).map (symbolAt sampledBits symbols)).foldl
        (fun (a : BitVec 32) s => a <<< 2 ||| BitVec.ofNat 32 s.code) r := by
  induction bits generalizing r with
  | nil => rfl
  | cons bit bits ih =>
      have hrest := fun q hq => hslot q (List.mem_cons_of_mem _ hq)
      have hhead := hslot bit List.mem_cons_self
      by_cases hin : bit ∈ sampledBits
      · have hend : BitVec.ofNat 32 (symbolAt sampledBits symbols bit).code ≠ kEndOfPattern := by
          cases symbolAt sampledBits symbols bit <;> decide
        rw [if_pos hin] at hhead
        rw [List.foldl_cons, hhead, if_pos hend, List.filter_cons_of_pos (by simpa using hin),
          List.map_cons, List.foldl_cons]
        exact ih _ hrest
      · rw [if_neg hin] at hhead
        rw [List.foldl_cons, hhead, if_neg (by simp), List.filter_cons_of_neg (by simpa using hin)]
        exact ih _ hrest

theorem Samples.orderedPattern_eq (h : Samples sampledBits symbols) :
    generateOrderedPattern sampledBits (encodeSymbols symbols) =
      encodeSymbols (orderedSymbols sampledBits symbols) := by
  have hplaced := h.placed (Nat.le_refl _)
  refine foldl_slots kEndOfPattern fun bit hbit => ?_
  have hlt : bit < 32 := by simpa using hbit
  split_ifs with hin
  · have hlen := List.idxOf_lt_length_iff.mpr hin
    refine hplaced.there (sampledBits.idxOf bit) hlen bit _ ?_ (h.symbolAt_idx hin)
    rw [List.getElem?_eq_getElem hlen, List.getElem_idxOf]
  · exact hplaced.free bit hlt fun j _ hj => hin (List.mem_of_getElem? hj)

end Samples

/-! ### Masks and values -/

def symbolBits (f : PatternSymbol → Bool) (symbols : List PatternSymbol) : Word :=
  symbols.foldl (fun (a : Word) s => a <<< 1 ||| if f s then 1 else 0) 0

theorem symbolBits_getLsbD (f : PatternSymbol → Bool) {symbols : List PatternSymbol}
    (h : symbols.length ≤ 32) (k : Nat) :
    (symbolBits f symbols).getLsbD k = (symbols.reverse[k]?).any f := by
  induction symbols using List.reverseRecOn generalizing k with
  | nil => simp [symbolBits]
  | append_singleton symbols s ih =>
      rw [List.length_append, List.length_singleton] at h
      have hstep : symbolBits f (symbols ++ [s]) =
          symbolBits f symbols <<< 1 ||| if f s then 1 else 0 := List.foldl_append
      rw [hstep, List.reverse_append, List.reverse_singleton, List.singleton_append,
        BitVec.getLsbD_or, BitVec.getLsbD_shiftLeft]
      cases k with
      | zero => cases hf : f s <;> simp [hf]
      | succ k =>
          have hone : (if f s then (1 : Word) else 0).getLsbD (k + 1) = false := by
            cases f s <;> simp [BitVec.getLsbD_one]
          rw [hone, Nat.add_sub_cancel, ih (by omega), List.getElem?_cons_succ]
          by_cases hk : k + 1 < 32
          · simp [hk]
          · have hnone : symbols.reverse[k]? = none := by
              rw [List.getElem?_eq_none_iff, List.length_reverse]
              omega
            simp [hnone]

theorem generateMaskValuePair_from {symbols : List PatternSymbol} (h : symbols.length ≤ 15)
    {i : Nat} (hi : i ≤ symbols.length) :
    (List.range i).foldl (fun (mask, value) i =>
        let sym := getSymbolAt (encodeSymbols symbols) i
        ((mask : Word) <<< 1 ||| if sym = 2 then 0 else 1, (value : Word) <<< 1 ||| sym &&& 1))
        (0, 0) =
      (symbolBits (· ≠ .symbolX) (symbols.take i), symbolBits (· = .symbol1) (symbols.take i)) := by
  induction i with
  | zero => rfl
  | succ i ih =>
      have hs := List.getElem?_eq_getElem (by omega : i < symbols.length)
      rw [List.range_succ, List.foldl_append, ih (by omega), List.foldl_cons, List.foldl_nil,
        getSymbolAt_encode h hs, List.take_add_one, hs]
      simp only [symbolBits, Option.toList_some, List.foldl_append, List.foldl_cons, List.foldl_nil]
      cases symbols[i] <;> rfl

theorem generateMaskValuePair_encode {symbols : List PatternSymbol} (h : symbols.length ≤ 15) :
    generateMaskValuePair (encodeSymbols symbols) =
      (symbolBits (· ≠ .symbolX) symbols, symbolBits (· = .symbol1) symbols) := by
  have hfrom := generateMaskValuePair_from h (Nat.le_refl _)
  rw [List.take_length] at hfrom
  rw [generateMaskValuePair, getPatternLength_encode h]
  exact hfrom

theorem masked_eq_iff {symbols : List PatternSymbol} (h : symbols.length ≤ 32) (bits : Word) :
    bits &&& symbolBits (· ≠ .symbolX) symbols = symbolBits (· = .symbol1) symbols ↔
      ∀ (k : Nat) (s : PatternSymbol), symbols.reverse[k]? = some s →
        s.agrees (bits.getLsbD k) = true := by
  have hbit (k : Nat) : (bits &&& symbolBits (· ≠ .symbolX) symbols).getLsbD k =
        (symbolBits (· = .symbol1) symbols).getLsbD k ↔
      ∀ s, symbols.reverse[k]? = some s → s.agrees (bits.getLsbD k) = true := by
    rw [BitVec.getLsbD_and, symbolBits_getLsbD _ h, symbolBits_getLsbD _ h]
    cases hs : symbols.reverse[k]? with
    | none => simp
    | some s => cases s <;> simp [PatternSymbol.agrees]
  constructor
  · intro heq k s hs
    exact (hbit k).mp (by rw [heq]) s hs
  · intro hall
    apply BitVec.eq_of_getLsbD_eq
    intro k _
    exact (hbit k).mpr (hall k)

/-! ### The two tests -/

theorem filter_range_getElem? (f : Nat → Bool) (n k p : Nat) :
    ((List.range n).filter f)[k]? = some p ↔
      p < n ∧ f p = true ∧ Nat.count (fun q => f q = true) p = k := by
  induction n with
  | zero => simp
  | succ n ih =>
      have hlen : ((List.range n).filter f).length = Nat.count (fun q => f q = true) n := by
        rw [Nat.count, List.countP_eq_length_filter]
        simp
      have hmono (hp : p < n) : f p = true →
          Nat.count (fun q => f q = true) p < Nat.count (fun q => f q = true) n := fun hf =>
        Nat.count_strict_mono hf hp
      rw [List.range_succ, List.filter_append]
      by_cases hk : k < ((List.range n).filter f).length
      · rw [List.getElem?_append_left hk, ih]
        constructor
        · rintro ⟨hp, hf, hcount⟩
          exact ⟨by omega, hf, hcount⟩
        · rintro ⟨hp, hf, hcount⟩
          have hne : p ≠ n := by
            intro heq
            subst heq
            omega
          exact ⟨by omega, hf, hcount⟩
      · rw [List.getElem?_append_right (by omega), hlen]
        rw [hlen] at hk
        cases hn : f n with
        | false =>
            rw [List.filter_cons_of_neg (by simp [hn])]
            simp only [List.filter_nil, List.getElem?_nil, reduceCtorEq, false_iff]
            rintro ⟨hp, hf, hcount⟩
            have hne : p ≠ n := fun heq => by simp [heq, hn] at hf
            have := hmono (by omega) hf
            omega
        | true =>
            rw [List.filter_cons_of_pos hn, List.filter_nil, List.getElem?_singleton]
            constructor
            · intro heq
              split_ifs at heq with hzero
              cases heq
              exact ⟨by omega, hn, by omega⟩
            · rintro ⟨hp, hf, hcount⟩
              have hne : p = n := by
                rcases Nat.lt_or_eq_of_le (Nat.lt_succ_iff.mp hp) with hlt | heq
                · have := hmono hlt hf
                  omega
                · exact heq
              subst hne
              simp [hcount]

section Samples

variable {sampledBits : List Nat} {symbols : List PatternSymbol}

theorem Samples.sampled_iff (h : Samples sampledBits symbols) (p : Nat) :
    (generateSampledBitsMask sampledBits).getLsbD p = true ↔ p ∈ sampledBits := by
  rw [generateSampledBitsMask_getLsbD, decide_eq_true_eq]
  exact ⟨fun hp => hp.2, fun hp => ⟨h.inWord p hp, hp⟩⟩

theorem Samples.ordered_length (h : Samples sampledBits symbols) :
    (orderedSymbols sampledBits symbols).length ≤ 15 := by
  have hnodup : ((List.range 32).reverse.filter (· ∈ sampledBits)).Nodup :=
    (List.nodup_reverse.mpr List.nodup_range).filter _
  have hsub : (List.range 32).reverse.filter (· ∈ sampledBits) ⊆ sampledBits := by
    intro bit hbit
    simpa using (List.mem_filter.mp hbit).2
  have hle := (hnodup.subperm hsub).length_le
  have hsize := h.length_le
  rw [h.length_eq] at hsize
  rw [orderedSymbols, List.length_map]
  omega

/-- The symbol for bit `k` of the compressed word is that of the position of rank `k`. -/
theorem Samples.ordered_getElem? (h : Samples sampledBits symbols) (k : Nat) (s : PatternSymbol) :
    (orderedSymbols sampledBits symbols).reverse[k]? = some s ↔
      ∃ bit ∈ sampledBits, rank (generateSampledBitsMask sampledBits) bit = k ∧
        symbolAt sampledBits symbols bit = s := by
  have hfilter : (List.range 32).filter (· ∈ sampledBits) =
      (List.range 32).filter (generateSampledBitsMask sampledBits).getLsbD := by
    refine List.filter_congr fun bit _ => ?_
    rw [← Bool.coe_iff_coe, h.sampled_iff, decide_eq_true_eq]
  have hreverse : (orderedSymbols sampledBits symbols).reverse =
      ((List.range 32).filter (generateSampledBitsMask sampledBits).getLsbD).map
        (symbolAt sampledBits symbols) := by
    rw [orderedSymbols, ← List.map_reverse, ← List.filter_reverse, List.reverse_reverse, hfilter]
  rw [hreverse, List.getElem?_map, Option.map_eq_some_iff]
  constructor
  · rintro ⟨bit, hbit, hs⟩
    obtain ⟨-, hset, hrank⟩ := (filter_range_getElem? _ _ _ _).mp hbit
    exact ⟨bit, (h.sampled_iff bit).mp hset, hrank, hs⟩
  · rintro ⟨bit, hbit, hrank, hs⟩
    exact ⟨bit, (filter_range_getElem? _ _ _ _).mpr
      ⟨h.inWord bit hbit, (h.sampled_iff bit).mpr hbit, hrank⟩, hs⟩

theorem Samples.compress_match (h : Samples sampledBits symbols) (w : Word) :
    w.compress (generateSampledBitsMask sampledBits) &&&
        (generateMaskValuePair (generateOrderedPattern sampledBits (encodeSymbols symbols))).1 =
      (generateMaskValuePair (generateOrderedPattern sampledBits (encodeSymbols symbols))).2 ↔
        symbolsMatch sampledBits symbols w = true := by
  have hbit {bit : Nat} (hin : bit ∈ sampledBits) :
      (w.compress (generateSampledBitsMask sampledBits)).getLsbD
        (rank (generateSampledBitsMask sampledBits) bit) = w.getLsbD bit :=
    compress_rank (by decide) w _ ((h.sampled_iff bit).mpr hin)
  have hlen := h.ordered_length
  rw [h.orderedPattern_eq, generateMaskValuePair_encode hlen, masked_eq_iff (by omega),
    h.symbolsMatch_iff]
  constructor
  · intro hall bit hin
    rw [← hbit hin]
    exact hall _ _ ((h.ordered_getElem? _ _).mpr ⟨bit, hin, rfl, rfl⟩)
  · intro hall k s hs
    obtain ⟨bit, hin, rfl, rfl⟩ := (h.ordered_getElem? k s).mp hs
    rw [hbit hin]
    exact hall bit hin

/-- The moved bits index a table with an entry for every value of the sampled bits. -/
theorem compress_sampled_lt (w : Word) :
    (w.compress (generateSampledBitsMask sampledBits)).toNat < 2 ^ sampledBits.length := by
  refine Nat.lt_pow_two_of_testBit _ fun k hk => ?_
  by_contra hset
  rw [Bool.not_eq_false] at hset
  obtain ⟨p, hp, -, hrank⟩ := (compress_getLsbD (by decide) w _ k).mp hset
  have hlt := BitVec.lt_of_getLsbD hp
  have hcount : rank (generateSampledBitsMask sampledBits) p <
      Nat.count (fun q => (generateSampledBitsMask sampledBits).getLsbD q = true) 32 :=
    Nat.count_strict_mono hp hlt
  have hfilter : Nat.count (fun q => (generateSampledBitsMask sampledBits).getLsbD q = true) 32 =
      ((List.range 32).filter (generateSampledBitsMask sampledBits).getLsbD).length := by
    rw [Nat.count, List.countP_eq_length_filter]
    simp
  have hsub : (List.range 32).filter (generateSampledBitsMask sampledBits).getLsbD ⊆
      sampledBits := by
    intro bit hbit
    have hset := (List.mem_filter.mp hbit).2
    rw [generateSampledBitsMask_getLsbD, decide_eq_true_eq] at hset
    exact hset.2
  have hle := ((List.nodup_range.filter _).subperm hsub).length_le
  omega

theorem one_shiftLeft_getLsbD {bit : Nat} (hbit : bit < 32) (p : Nat) :
    (1#32 <<< bit).getLsbD p = decide (bit = p) := by
  have hmask := generateSampledBitsMask_getLsbD [bit] p
  have hzero : generateSampledBitsMask [bit] = 1#32 <<< bit := BitVec.zero_or
  rw [hzero] at hmask
  rw [hmask, decide_eq_decide, List.mem_singleton]
  omega

theorem Samples.singleDecode_from (h : Samples sampledBits symbols) {i : Nat}
    (hi : i ≤ sampledBits.length) {mv : Word × Word}
    (hmv : (List.range i).foldl (fun (mask, value) i =>
        (mask ||| 1#32 <<< sampledBits.getD i 0,
          if getSymbolAt (encodeSymbols symbols) i = 1 then value ||| 1#32 <<< sampledBits.getD i 0
          else value)) (0, 0) = mv) :
    (∀ p, mv.1.getLsbD p = true ↔ ∃ j < i, sampledBits[j]? = some p) ∧
      ∀ p, mv.2.getLsbD p = true ↔
        ∃ j < i, sampledBits[j]? = some p ∧ symbols[j]? = some .symbol1 := by
  subst hmv
  induction i with
  | zero => simp
  | succ i ih =>
      obtain ⟨ihmask, ihvalue⟩ := ih (by omega)
      have hlen : i < symbols.length := by
        rw [h.length_eq]
        omega
      have hs := List.getElem?_eq_getElem hlen
      have hbit : sampledBits[i]? = some (sampledBits.getD i 0) := by
        rw [List.getD_eq_getElem?_getD, List.getElem?_eq_getElem (by omega), Option.getD_some]
      have hone := one_shiftLeft_getLsbD (h.inWord _ (List.mem_of_getElem? hbit))
      have hsym : getSymbolAt (encodeSymbols symbols) i = 1 ↔ symbols[i]? = some .symbol1 := by
        rw [getSymbolAt_encode h.length_le hs, hs]
        cases symbols[i] <;> decide
      rw [List.range_succ, List.foldl_append, List.foldl_cons, List.foldl_nil]
      constructor
      · intro p
        simp only [BitVec.getLsbD_or, Bool.or_eq_true, ihmask, hone, decide_eq_true_eq]
        constructor
        · rintro (⟨j, hj, hp⟩ | rfl)
          · exact ⟨j, by omega, hp⟩
          · exact ⟨i, by omega, hbit⟩
        · rintro ⟨j, hj, hp⟩
          rcases Nat.lt_or_eq_of_le (Nat.lt_succ_iff.mp hj) with hlt | rfl
          · exact .inl ⟨j, hlt, hp⟩
          · exact .inr (Option.some.inj (hbit.symm.trans hp))
      · intro p
        by_cases hset : symbols[i]? = some .symbol1
        · simp only [if_pos (hsym.mpr hset), BitVec.getLsbD_or, Bool.or_eq_true, ihvalue, hone,
            decide_eq_true_eq]
          constructor
          · rintro (⟨j, hj, hp⟩ | rfl)
            · exact ⟨j, by omega, hp⟩
            · exact ⟨i, by omega, hbit, hset⟩
          · rintro ⟨j, hj, hp, hone⟩
            rcases Nat.lt_or_eq_of_le (Nat.lt_succ_iff.mp hj) with hlt | rfl
            · exact .inl ⟨j, hlt, hp, hone⟩
            · exact .inr (Option.some.inj (hbit.symm.trans hp))
        · simp only [if_neg (mt hsym.mp hset), ihvalue]
          constructor
          · rintro ⟨j, hj, hp⟩
            exact ⟨j, by omega, hp⟩
          · rintro ⟨j, hj, hp, hsymbol⟩
            rcases Nat.lt_or_eq_of_le (Nat.lt_succ_iff.mp hj) with hlt | rfl
            · exact ⟨j, hlt, hp, hsymbol⟩
            · exact absurd hsymbol hset

theorem Samples.singleDecode_mask (h : Samples sampledBits symbols) (p : Nat) :
    (singleDecode sampledBits (encodeSymbols symbols)).1.getLsbD p = true ↔ p ∈ sampledBits := by
  obtain ⟨hmask, -⟩ := h.singleDecode_from (Nat.le_refl _)
    (Eq.refl (singleDecode sampledBits (encodeSymbols symbols)))
  rw [hmask, List.mem_iff_getElem?]
  exact ⟨fun ⟨j, _, hj⟩ => ⟨j, hj⟩,
    fun ⟨j, hj⟩ => ⟨j, (List.getElem?_eq_some_iff.mp hj).1, hj⟩⟩

theorem Samples.singleDecode_ne_zero (h : Samples sampledBits symbols)
    (hne : 0 < sampledBits.length) : (singleDecode sampledBits (encodeSymbols symbols)).1 ≠ 0 := by
  intro hzero
  have hset := (h.singleDecode_mask sampledBits[0]).mpr (List.getElem_mem hne)
  rw [hzero] at hset
  simp at hset

/-- Without an x, one mask and value over the instruction read the whole pattern. -/
theorem Samples.singleDecode_match (h : Samples sampledBits symbols)
    (hx : PatternSymbol.symbolX ∉ symbols) (w : Word) :
    w &&& (singleDecode sampledBits (encodeSymbols symbols)).1 =
        (singleDecode sampledBits (encodeSymbols symbols)).2 ↔
      symbolsMatch sampledBits symbols w = true := by
  obtain ⟨-, hvalue⟩ := h.singleDecode_from (Nat.le_refl _)
    (Eq.refl (singleDecode sampledBits (encodeSymbols symbols)))
  have hmask := h.singleDecode_mask
  have hvalue' (p : Nat) : (singleDecode sampledBits (encodeSymbols symbols)).2.getLsbD p = true ↔
      p ∈ sampledBits ∧ symbolAt sampledBits symbols p = .symbol1 := by
    rw [hvalue]
    constructor
    · rintro ⟨j, hj, hp, hone⟩
      have hin := List.mem_of_getElem? hp
      have hidx := List.idxOf_lt_length_iff.mpr hin
      have hself : sampledBits[sampledBits.idxOf p]? = some p := by
        rw [List.getElem?_eq_getElem hidx, List.getElem_idxOf]
      have hsame := (List.getElem?_inj hidx h.nodup).mp (hself.trans hp.symm)
      have hat := h.symbolAt_idx hin
      rw [hsame, hone] at hat
      exact ⟨hin, (Option.some.inj hat).symm⟩
    · rintro ⟨hin, hone⟩
      have hidx := List.idxOf_lt_length_iff.mpr hin
      refine ⟨sampledBits.idxOf p, hidx, ?_, ?_⟩
      · rw [List.getElem?_eq_getElem hidx, List.getElem_idxOf]
      · rw [h.symbolAt_idx hin, hone]
  have hbit {p : Nat} (hin : p ∈ sampledBits) :
      (symbolAt sampledBits symbols p).agrees (w.getLsbD p) = true ↔
        (w.getLsbD p = true ↔ symbolAt sampledBits symbols p = .symbol1) := by
    have hmem := List.mem_of_getElem? (h.symbolAt_idx hin)
    cases hs : symbolAt sampledBits symbols p with
    | symbol0 => cases w.getLsbD p <;> decide
    | symbol1 => cases w.getLsbD p <;> decide
    | symbolX =>
        rw [hs] at hmem
        exact absurd hmem hx
  rw [h.symbolsMatch_iff]
  constructor
  · intro heq p hin
    have hand := congrArg (fun v => v.getLsbD p = true) heq
    simp only [BitVec.getLsbD_and, Bool.and_eq_true, hmask, hvalue', hin, and_true, true_and,
      eq_iff_iff] at hand
    exact (hbit hin).mpr hand
  · intro hall
    apply BitVec.eq_of_getLsbD_eq
    intro p _
    rw [← Bool.coe_iff_coe, BitVec.getLsbD_and, Bool.and_eq_true, hmask, hvalue', and_comm]
    exact and_congr_right fun hin => (hbit hin).mp (hall p hin)

end Samples

end GabyVm.Aarch64
