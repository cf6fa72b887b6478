import GabyVm.Aarch64.CipherTables
import GabyVm.Aarch64.VectorLanes

/-!
# The SM4 instructions

An instruction runs four rounds on the words of a register.  The rounds keep
their words in 64 bits but never set a bit above the low 32, so nothing is lost
between two instructions, and the keys in reverse order undo them.
-/

namespace GabyVm.Aarch64

open GabyVm.Foundation

/-! ## Rounds -/

/-- The bytes of a word are looked up from the high one on. -/
def sm4SBox (x : BitVec 64) : BitVec 64 :=
  [24, 16, 8, 0].foldl (fun (result : BitVec 64) (j : Nat) =>
    let s : BitVec 8 := 255 - (x >>> j &&& 0xff).setWidth 8
    result <<< 8 ||| (tableEntry sm4SBoxTable s).setWidth 64) 0

def sm4Round (isKey : Bool) (k second third fourth : BitVec 64) : BitVec 64 :=
  let rol (x : BitVec 64) (rotate : Nat) := rotateLeftMasked x rotate 32
  let intval := sm4SBox (fourth ^^^ third ^^^ second ^^^ k)
  if isKey then intval ^^^ (rol intval 13 ^^^ rol intval 23)
  else intval ^^^ (rol intval 2 ^^^ rol intval 10 ^^^ rol intval 18 ^^^ rol intval 24)

def xor64 (x y : BitVec 64) : BitVec 64 := y ^^^ x

def sm4 (srcdst src1 src2 : SimVRegister) (isKey : Bool) : SimVRegister :=
  let result := if isKey then src1.words else srcdst.words
  let keys := if isKey then src2.wordList else src1.wordList
  let result := shifting xor64 (sm4Round isKey) keys result
  srcdst.setUintArray 4 fun i => (result.get i).setWidth 32

def visitCryptoSM4 : Leaf := fun w c =>
  let rd := c.vregister w.getRd
  let rn := c.vregister w.getRn
  let rm := c.vregister w.getRm
  if c.formHash = formHash "sm4ekey_vvv4_cryptosha512_3" then
    .done (c.setVRegister w.getRd (sm4 rd rn rm true))
  else if c.formHash = formHash "sm4e_vv4_cryptosha512_2" then
    .done (c.setVRegister w.getRd (sm4 rd rn rm false))
  else .done c

/-! ## What the rounds keep -/

theorem sm4SBox_narrow (x : BitVec 64) : Narrow (sm4SBox x) := by
  intro i hi
  have hbyte (b : BitVec 8) (j : Nat) (hj : 8 ≤ j) : (b.setWidth 64).getLsbD j = false := by
    rw [BitVec.getLsbD_setWidth, BitVec.getLsbD_of_ge b j hj, Bool.and_false]
  simp only [sm4SBox, List.foldl_cons, List.foldl_nil, BitVec.getLsbD_or,
    BitVec.getLsbD_shiftLeft]
  rw [hbyte _ i (by omega), hbyte _ (i - 8) (by omega), hbyte _ (i - 8 - 8) (by omega),
    hbyte _ (i - 8 - 8 - 8) (by omega)]
  simp

theorem sm4Round_narrow (isKey : Bool) (k x y z : BitVec 64) :
    Narrow (sm4Round isKey k x y z) := by
  have hbox := sm4SBox_narrow (z ^^^ y ^^^ x ^^^ k)
  have hrol (rotate : Nat) : Narrow (rotateLeftMasked (sm4SBox (z ^^^ y ^^^ x ^^^ k)) rotate 32) :=
    narrow_rotateRight _ _
  cases isKey with
  | true => exact hbox.xor ((hrol 13).xor (hrol 23))
  | false => exact hbox.xor ((((hrol 2).xor (hrol 10)).xor (hrol 18)).xor (hrol 24))

theorem narrowWindow_shifting (isKey : Bool) (keys : List (BitVec 64)) {x : Window (BitVec 64)}
    (h : NarrowWindow x) : NarrowWindow (shifting xor64 (sm4Round isKey) keys x) := by
  induction keys generalizing x with
  | nil => exact h
  | cons key keys ih =>
      exact ih ⟨h.second, h.third, h.fourth, (sm4Round_narrow isKey key _ _ _).xor h.first⟩

theorem words_sm4 (srcdst src1 src2 : SimVRegister) :
    (sm4 srcdst src1 src2 false).words =
      shifting xor64 (sm4Round false) src1.wordList srcdst.words :=
  words_setUintArray srcdst (narrowWindow_shifting false _ (narrowWindow_words srcdst))

theorem xor64_xor64 (x y : BitVec 64) : xor64 (xor64 x y) y = x := by
  rw [xor64, xor64, ← BitVec.xor_assoc, BitVec.xor_self, BitVec.zero_xor]

theorem sm4Round_symm (isKey : Bool) (k x y z : BitVec 64) :
    sm4Round isKey k z y x = sm4Round isKey k x y z := by
  have hsum : x ^^^ y ^^^ z ^^^ k = z ^^^ y ^^^ x ^^^ k := by ac_rfl
  rw [sm4Round, sm4Round, hsum]

/-! ## SM4 programs -/

/-- An `SM4E` of the register `rd` with four keys in `rn`. -/
structure Sm4Visit (rd rn : BitVec 5) (v : Visit) : Prop where
  leaf : v.leaf = visitCryptoSM4
  form : v.form = "sm4e_vv4_cryptosha512_2"
  destination : v.word.getRd = rd
  source : v.word.getRn = rn

theorem sm4Forms : formHash "sm4e_vv4_cryptosha512_2" ≠ formHash "sm4ekey_vvv4_cryptosha512_3" := by
  decide +kernel

theorem Sm4Visit.sets {rd rn : BitVec 5} {v : Visit} (h : Sm4Visit rd rn v) :
    v.Sets rd fun c => sm4 (c.vregister rd) (c.vregister rn) (c.vregister v.word.getRm) false := by
  apply Visit.sets_of_leaf
  intro c hash hhash
  rw [h.form] at hhash
  have hkey : (c.writeFormHash hash).formHash ≠ formHash "sm4ekey_vvv4_cryptosha512_3" := by
    rw [Core.writeFormHash, hhash]
    exact sm4Forms
  have he : (c.writeFormHash hash).formHash = formHash "sm4e_vv4_cryptosha512_2" := hhash
  rw [h.leaf, visitCryptoSM4, if_neg hkey, if_pos he, h.destination, h.source]
  rfl

theorem Sm4Visit.run {rd rn : BitVec 5} {v : Visit} (h : Sm4Visit rd rn v) (c : Core) :
    ∃ c', v.run c = .ok c' ∧
      (c'.vregister rd).words = shifting xor64 (sm4Round false) (c.vregister rn).wordList
        (c.vregister rd).words ∧ WritesOnly [rd] c c' := by
  obtain ⟨c', hrun, hc', hrest⟩ := h.sets.run c
  exact ⟨c', hrun, by rw [hc', words_sm4], hrest⟩

/-- The keys in some registers, in the order of their use. -/
def roundKeys (c : Core) (keys : List (BitVec 5)) : List (BitVec 64) :=
  keys.flatMap fun r => (c.vregister r).wordList

theorem sm4_run {rd : BitVec 5} {keys : List (BitVec 5)} {vs : List Visit}
    (h : List.Forall₂ (Sm4Visit rd) keys vs) (hkeys : ∀ r ∈ keys, r ≠ rd) (c : Core) :
    ∃ c', runVisits vs c = .ok c' ∧
      (c'.vregister rd).words = shifting xor64 (sm4Round false) (roundKeys c keys)
        (c.vregister rd).words ∧ WritesOnly [rd] c c' := by
  induction h generalizing c with
  | nil => exact ⟨c, rfl, rfl, WritesOnly.refl [rd] c⟩
  | @cons r v keys vs hv hvs ih =>
      obtain ⟨d, hrun, hd, hrest⟩ := hv.run c
      obtain ⟨c', hruns, hc', hrest'⟩ := ih (fun r hr => hkeys r (List.mem_cons_of_mem _ hr)) d
      have hsame : roundKeys d keys = roundKeys c keys :=
        List.flatMap_congr fun r hr => by
          rw [hrest.other (hkeys r (List.mem_cons_of_mem _ hr))]
      refine ⟨c', ?_, ?_, hrest.trans hrest'⟩
      · rw [runVisits_cons hrun, hruns]
      · rw [hc', hd, hsame, roundKeys, roundKeys, List.flatMap_cons, shifting, shifting, shifting,
          List.foldl_append]

/-! ## Words in reverse order -/

def integerWidth (w : Word) : Nat := 8 <<< (w.extractLsb 23 22).toNat

def formatBits (w : Word) : Nat := if w.getNEONQ then 128 else 64

/-- The lanes in reverse order within each group of `revSize` bytes. -/
def revByte (dst src : SimVRegister) (width count revSize : Nat) : SimVRegister :=
  let lanesPerLoop := revSize / (width / 8)
  dst.setUintArray count fun k =>
    src.lane width (k - k % lanesPerLoop + (lanesPerLoop - 1 - k % lanesPerLoop))

/-- The case REV64 of `VisitNEON2RegMisc`; the others are `other`. -/
def visitNEON2RegMisc (other : Leaf) : Leaf := fun w c =>
  if c.formHash = formHash "rev64_asimdmisc_r" then
    let width := integerWidth w
    .done (c.setVRegister w.getRd
      (revByte (c.vregister w.getRd) (c.vregister w.getRn) width (formatBits w / width) 8))
  else other w c

/-- The bytes of two registers from `index` on. -/
def ext (dst src1 src2 : SimVRegister) (count index : Nat) : SimVRegister :=
  dst.setUintArray count fun i =>
    if i + index < count then src1.lane 8 (i + index) else src2.lane 8 (i + index - count)

def visitNEONExtract (debug : Bool) : Leaf := fun w c =>
  if w &&& 0xbfe08400 = 0x2e000000 then
    .done (c.setVRegister w.getRd (ext (c.vregister w.getRd) (c.vregister w.getRn)
      (c.vregister w.getRm) (formatBits w / 8) (w.extractLsb 14 11).toNat))
  else unimplemented debug c (.done c)

/-- `REV64` of the words of a register and `EXT` of the register with itself by 8 bytes. -/
structure ReversesWords (rd : BitVec 5) (rev extract : Visit) : Prop where
  revLeaf : ∃ other, rev.leaf = visitNEON2RegMisc other
  revForm : rev.form = "rev64_asimdmisc_r"
  revFormat : integerWidth rev.word = 32 ∧ rev.word.getNEONQ = true
  revRegisters : rev.word.getRd = rd ∧ rev.word.getRn = rd
  extLeaf : ∃ debug, extract.leaf = visitNEONExtract debug
  extOperation : extract.word &&& 0xbfe08400 = 0x2e000000
  extFormat : extract.word.getNEONQ = true ∧ (extract.word.extractLsb 14 11).toNat = 8
  extRegisters : extract.word.getRd = rd ∧ extract.word.getRn = rd ∧ extract.word.getRm = rd

theorem lane_ext (dst src : SimVRegister) {k : Nat} (hk : k < 4) :
    (ext dst src src 16 8).lane 32 k = src.lane 32 ((k + 2) % 4) := by
  apply BitVec.eq_of_getLsbD_eq
  intro j hj
  have hlane := SimVRegister.lane_setUintArray dst (fun i =>
    if i + 8 < 16 then src.lane 8 (i + 8) else src.lane 8 (i + 8 - 16)) (by omega)
    (show 4 * k + j / 8 < 16 by omega)
  have hbit := congrArg (fun x => x.getLsbD (j % 8)) hlane
  have hmod : j % 8 < 8 := by omega
  have hindex : 8 * (4 * k + j / 8) + j % 8 = 32 * k + j := by omega
  rcases (show k < 2 ∨ 2 ≤ k by omega) with hlow | hhigh
  · have hsource : 8 * (4 * k + j / 8 + 8) + j % 8 = 32 * ((k + 2) % 4) + j := by omega
    rw [if_pos (by omega)] at hbit
    simpa [SimVRegister.lane, ext, hmod, hj, hindex, hsource] using hbit
  · have hsource : 8 * (4 * k + j / 8 - 8) + j % 8 = 32 * ((k + 2) % 4) + j := by omega
    rw [if_neg (by omega)] at hbit
    simpa [SimVRegister.lane, ext, hmod, hj, hindex, hsource] using hbit

theorem words_ext_revByte (dst dst' src : SimVRegister) :
    (ext dst (revByte dst' src 32 4 8) (revByte dst' src 32 4 8) 16 8).words =
      src.words.reverse := by
  have hrev (k : Nat) (hk : k < 4) := SimVRegister.lane_setUintArray dst'
    (fun k => src.lane 32 (k - k % 2 + (2 - 1 - k % 2))) (show 32 * 4 ≤ 2048 by omega) hk
  have hlane (k : Nat) (hk : k < 4) : (revByte dst' src 32 4 8).lane 32 k =
      src.lane 32 (k - k % 2 + (2 - 1 - k % 2)) := hrev k hk
  simp only [SimVRegister.words, lane_ext _ _ (show 0 < 4 by omega),
    lane_ext _ _ (show 1 < 4 by omega), lane_ext _ _ (show 2 < 4 by omega),
    lane_ext _ _ (show 3 < 4 by omega), hlane _ (show (0 + 2) % 4 < 4 by omega),
    hlane _ (show (1 + 2) % 4 < 4 by omega), hlane _ (show (2 + 2) % 4 < 4 by omega),
    hlane _ (show (3 + 2) % 4 < 4 by omega)]
  rfl

theorem ReversesWords.setsRev {rd : BitVec 5} {rev extract : Visit}
    (h : ReversesWords rd rev extract) :
    rev.Sets rd fun c => revByte (c.vregister rd) (c.vregister rd) 32 4 8 := by
  obtain ⟨other, hleaf⟩ := h.revLeaf
  apply Visit.sets_of_leaf
  intro c hash hhash
  rw [h.revForm] at hhash
  have hform : (c.writeFormHash hash).formHash = formHash "rev64_asimdmisc_r" := hhash
  rw [hleaf, visitNEON2RegMisc, if_pos hform]
  simp only [h.revFormat.1, h.revRegisters.1, h.revRegisters.2, formatBits, h.revFormat.2,
    if_true]
  rfl

theorem ReversesWords.setsExt {rd : BitVec 5} {rev extract : Visit}
    (h : ReversesWords rd rev extract) :
    extract.Sets rd fun c => ext (c.vregister rd) (c.vregister rd) (c.vregister rd) 16 8 := by
  obtain ⟨debug, hleaf⟩ := h.extLeaf
  apply Visit.sets_of_leaf
  intro c hash _
  rw [hleaf, visitNEONExtract, if_pos h.extOperation]
  simp only [h.extRegisters.1, h.extRegisters.2.1, h.extRegisters.2.2, formatBits,
    h.extFormat.1, h.extFormat.2, if_true]
  rfl

theorem ReversesWords.run {rd : BitVec 5} {rev extract : Visit}
    (h : ReversesWords rd rev extract) (c : Core) :
    ∃ c', runVisits [rev, extract] c = .ok c' ∧
      (c'.vregister rd).words = (c.vregister rd).words.reverse ∧ WritesOnly [rd] c c' := by
  obtain ⟨d, hrev, hd, hrest⟩ := h.setsRev.run c
  obtain ⟨c', hext, hc', hrest'⟩ := h.setsExt.run d
  refine ⟨c', ?_, ?_, hrest.trans hrest'⟩
  · rw [runVisits_cons hrev, runVisits_cons hext, runVisits]
  · rw [hc', hd, words_ext_revByte]

/--
A sequence of `SM4E` instructions undoes another one when its keys are the same
in reverse order, and both are followed by the instructions that put the words
of the block in reverse order.
-/
theorem sm4_roundTrip {v : BitVec 5} {keys keys' : List (BitVec 5)} {vs vs' : List Visit}
    {rev extract : Visit} (hencrypt : List.Forall₂ (Sm4Visit v) keys vs)
    (hdecrypt : List.Forall₂ (Sm4Visit v) keys' vs') (hreverse : ReversesWords v rev extract)
    (hkeys : ∀ r ∈ keys ++ keys', r ≠ v) {c : Core}
    (hround : roundKeys c keys' = (roundKeys c keys).reverse) :
    ∃ c' c'', runVisits (vs ++ [rev, extract]) c = .ok c' ∧
      runVisits (vs' ++ [rev, extract]) c' = .ok c'' ∧
        (c''.vregister v).words = (c.vregister v).words ∧ WritesOnly [v] c c'' := by
  obtain ⟨d, hrun, hd, hrest⟩ := sm4_run hencrypt (fun r hr => hkeys r (by simp [hr])) c
  obtain ⟨c', hswap, hc', hrest'⟩ := hreverse.run d
  obtain ⟨d', hrun', hd', hrest''⟩ := sm4_run hdecrypt (fun r hr => hkeys r (by simp [hr])) c'
  obtain ⟨c'', hswap', hc'', hrest'''⟩ := hreverse.run d'
  have hwrites := hrest.trans hrest'
  have hsame : roundKeys c' keys' = roundKeys c keys' :=
    List.flatMap_congr fun r hr => by rw [hwrites.other (hkeys r (by simp [hr]))]
  have hback : (d'.vregister v).words = (c.vregister v).words.reverse := by
    rw [hd', hsame, hround, hc', hd]
    exact shifting_reverse xor64_xor64 (sm4Round_symm false) _ _
  refine ⟨c', c'', ?_, ?_, ?_, hwrites.trans (hrest''.trans hrest''')⟩
  · rw [runVisits_append hrun, hswap]
  · rw [runVisits_append hrun', hswap']
  · rw [hc'', hback]
    rfl

/-- A key register and one with the same words in reverse order. -/
def sm4Registers : Core :=
  { (default : Core) with
    vregisters := fun i => match i.val with
      | 0 => ⟨0x1032547698badcfeefcdab8967452301, 16⟩
      | 1 => ⟨0x33333333222222221111111100000000, 16⟩
      | 2 => ⟨0x00000000111111112222222233333333, 16⟩
      | _ => ⟨0, 16⟩ }

def sm4Visit (w : Word) : Visit := ⟨"sm4e_vv4_cryptosha512_2", visitCryptoSM4, w⟩

theorem sm4Program (rn : BitVec 5) {w : Word} (h : w.getRd = 0 ∧ w.getRn = rn) :
    List.Forall₂ (Sm4Visit 0) [rn] [sm4Visit w] := .cons ⟨rfl, rfl, h.1, h.2⟩ .nil

def rev64Visit (w : Word) : Visit := ⟨"rev64_asimdmisc_r", visitNEON2RegMisc fun _ c => .done c, w⟩

def extVisit (w : Word) : Visit := ⟨"ext_asimdext_only", visitNEONExtract true, w⟩

theorem reversesWords_zero : ReversesWords 0 (rev64Visit 0x4ea00800) (extVisit 0x6e004000) :=
  ⟨⟨_, rfl⟩, rfl, by decide, by decide, ⟨_, rfl⟩, by decide, by decide, by decide⟩

/-- `SM4E V0.4S, V1.4S`, then `SM4E V0.4S, V2.4S`, each with `REV64` and `EXT`. -/
theorem sm4_roundTrip_once :
    ∃ c' c'', runVisits ([sm4Visit 0xcec08420] ++ [rev64Visit 0x4ea00800, extVisit 0x6e004000])
        sm4Registers = .ok c' ∧
      runVisits ([sm4Visit 0xcec08440] ++ [rev64Visit 0x4ea00800, extVisit 0x6e004000]) c' =
        .ok c'' ∧
        (c''.vregister 0).words = (sm4Registers.vregister 0).words ∧
          WritesOnly [0] sm4Registers c'' :=
  sm4_roundTrip (sm4Program 1 (by decide)) (sm4Program 2 (by decide)) reversesWords_zero (by decide)
    (by decide +kernel)

end GabyVm.Aarch64
