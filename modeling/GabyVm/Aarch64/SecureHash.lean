import GabyVm.Aarch64.VectorLanes

/-!
# The SHA-256 instructions

The instructions run four rounds of the compression function, or extend the
message schedule by four words, on words that they keep in 64 bits.  Whatever
the carries leave above the low 32 bits, the words that come out are those of
the hash function.
-/

namespace GabyVm.Aarch64

open GabyVm.Foundation

/-! ## The source's helpers -/

def cryptoChoose (x y z : BitVec 64) : BitVec 64 := ((y ^^^ z) &&& x) ^^^ z

def cryptoMajority (x y z : BitVec 64) : BitVec 64 := (x &&& y) ||| ((x ||| y) &&& z)

/-- `SHASigma` on 32-bit words. -/
def shaSigma (a b c : Nat) (x : BitVec 64) : BitVec 64 :=
  ((rotateRightMasked x a 32 ^^^ rotateRightMasked x b 32 ^^^
    rotateRightMasked x c 32).setWidth 32).setWidth 64

/-- `SHASURotate` on 32-bit words. -/
def shaSuRotate (a b c : Nat) (x : BitVec 64) : BitVec 64 :=
  rotateRightMasked x a 32 ^^^ rotateRightMasked x b 32 ^^^ (x &&& 0xffffffff) >>> c

def shaRotateEltsLeftOne {α : Type} (x : Window α) : Window α :=
  ⟨x.fourth, x.first, x.second, x.third⟩

/-- A round of `sha2h` with the word `w`. -/
def sha2hRound (xy : Window (BitVec 64) × Window (BitVec 64)) (w : BitVec 64) :
    Window (BitVec 64) × Window (BitVec 64) :=
  let (x, y) := xy
  let chs := cryptoChoose y.first y.second y.third
  let maj := cryptoMajority x.first x.second x.third
  let t := y.fourth + shaSigma 6 11 25 y.first + chs + w
  let x := shaRotateEltsLeftOne { x with fourth := x.fourth + t }
  let y := shaRotateEltsLeftOne
    { y with fourth := t + shaSigma 2 13 22 xy.1.first + maj }
  ({ x with first := y.first }, { y with first := x.first })

/-- Write the low words of a window to a register. -/
def SimVRegister.setWords (r : SimVRegister) (x : Window (BitVec 64)) : SimVRegister :=
  r.setUintArray 4 fun i => (x.get i).setWidth 32

def sha2h (srcdst src1 src2 : SimVRegister) (part1 : Bool) : SimVRegister :=
  let x := if part1 then srcdst.words else src1.words
  let y := if part1 then src1.words else srcdst.words
  let (x, y) := src2.wordList.foldl sha2hRound (x, y)
  srcdst.setWords (if part1 then x else y)

def sha2su0 (srcdst src1 : SimVRegister) : SimVRegister :=
  let w := srcdst.words
  let x := src1.words.first
  srcdst.setWords
    { first := shaSuRotate 7 18 3 w.second + w.first
      second := shaSuRotate 7 18 3 w.third + w.second
      third := shaSuRotate 7 18 3 w.fourth + w.third
      fourth := shaSuRotate 7 18 3 x + w.fourth }

def sha2su1 (srcdst src1 src2 : SimVRegister) : SimVRegister :=
  let w := srcdst.words
  let x := src1.words
  let y := src2.words
  let first := shaSuRotate 17 19 10 y.third + w.first + x.second
  let second := shaSuRotate 17 19 10 y.fourth + w.second + x.third
  srcdst.setWords
    { first := first
      second := second
      third := shaSuRotate 17 19 10 first + w.third + x.fourth
      fourth := shaSuRotate 17 19 10 second + w.fourth + y.first }

/-- The SHA-256 cases of `VisitCrypto2RegSHA`; the others are `other`. -/
def visitCrypto2RegSHA (other : Leaf) : Leaf := fun w c =>
  let rd := c.vregister w.getRd
  let rn := c.vregister w.getRn
  if c.formHash = formHash "sha256su0_vv_cryptosha2" then
    .done (c.setVRegister w.getRd (sha2su0 rd rn))
  else other w c

/-- The SHA-256 cases of `VisitCrypto3RegSHA`; the others are `other`. -/
def visitCrypto3RegSHA (other : Leaf) : Leaf := fun w c =>
  let rd := c.vregister w.getRd
  let rn := c.vregister w.getRn
  let rm := c.vregister w.getRm
  if c.formHash = formHash "sha256h_qqv_cryptosha3" then
    .done (c.setVRegister w.getRd (sha2h rd rn rm true))
  else if c.formHash = formHash "sha256h2_qqv_cryptosha3" then
    .done (c.setVRegister w.getRd (sha2h rd rn rm false))
  else if c.formHash = formHash "sha256su1_vvv_cryptosha3" then
    .done (c.setVRegister w.getRd (sha2su1 rd rn rm))
  else other w c

/-! ## The hash function -/

namespace Sha256

def choose (x y z : BitVec 32) : BitVec 32 := (x &&& y) ^^^ (~~~x &&& z)

def majority (x y z : BitVec 32) : BitVec 32 := (x &&& y) ^^^ (x &&& z) ^^^ (y &&& z)

def sigma (a b c : Nat) (x : BitVec 32) : BitVec 32 :=
  x.rotateRight a ^^^ x.rotateRight b ^^^ x.rotateRight c

def smallSigma (a b c : Nat) (x : BitVec 32) : BitVec 32 :=
  x.rotateRight a ^^^ x.rotateRight b ^^^ x >>> c

/-- The eight working variables. -/
structure Working where
  a : BitVec 32
  b : BitVec 32
  c : BitVec 32
  d : BitVec 32
  e : BitVec 32
  f : BitVec 32
  g : BitVec 32
  h : BitVec 32
  deriving DecidableEq, Repr

/-- A round, with the sum of the word and the constant of the round. -/
def compress (s : Working) (w : BitVec 32) : Working :=
  let t1 := s.h + sigma 6 11 25 s.e + choose s.e s.f s.g + w
  let t2 := sigma 2 13 22 s.a + majority s.a s.b s.c
  { a := t1 + t2, b := s.a, c := s.b, d := s.c, e := s.d + t1, f := s.e, g := s.f, h := s.g }

/-- A schedule that is extended by the recurrence of the hash function. -/
def Extends (w : Nat → BitVec 32) : Prop := ∀ t,
  w (t + 16) = smallSigma 17 19 10 (w (t + 14)) + w (t + 9) + smallSigma 7 18 3 (w (t + 1)) + w t

/-- Sixteen words move on by one. -/
def slide (f : Nat → BitVec 32) : Nat → BitVec 32 := fun i =>
  if i < 15 then f (i + 1) else smallSigma 17 19 10 (f 14) + f 9 + smallSigma 7 18 3 (f 1) + f 0

def slides : Nat → (Nat → BitVec 32) → Nat → BitVec 32
  | 0, f => f
  | n + 1, f => slides n (slide f)

def schedule (block : Nat → BitVec 32) (t : Nat) : BitVec 32 := slides t block 0

theorem slides_apply {n i : Nat} (f : Nat → BitVec 32) (h : i + n ≤ 15) :
    slides n f i = f (i + n) := by
  induction n generalizing f with
  | zero => rfl
  | succ n ih =>
      rw [slides, ih (slide f) (by omega), slide, if_pos (by omega)]
      rfl

theorem slides_add (m n : Nat) (f : Nat → BitVec 32) :
    slides (m + n) f = slides n (slides m f) := by
  induction m generalizing f with
  | zero => rw [Nat.zero_add, slides]
  | succ m ih => rw [Nat.succ_add, slides, ih, slides]

theorem schedule_extends (block : Nat → BitVec 32) : Extends (schedule block) := by
  intro t
  have hword (k : Nat) (hk : k ≤ 15) : schedule block (t + k) = slides t block k := by
    rw [schedule, slides_add, slides_apply _ (by omega), Nat.zero_add]
  have hnext : schedule block (t + 16) = slide (slides t block) 15 := by
    rw [schedule, slides_add, slides, slides_apply _ (by omega)]
  rw [hnext, hword 14 (by omega), hword 9 (by omega), hword 1 (by omega), ← Nat.add_zero t,
    hword 0 (by omega)]
  rfl

end Sha256

/-! ## Low words -/

def SimVRegister.lowWords (r : SimVRegister) : Window (BitVec 32) :=
  ⟨r.lane 32 0, r.lane 32 1, r.lane 32 2, r.lane 32 3⟩

def SimVRegister.lowWordList (r : SimVRegister) : List (BitVec 32) :=
  (List.range 4).map fun i => r.lane 32 i

theorem low_rotateRight (x : BitVec 64) {rotate : Nat} (hpos : 0 < rotate) (hlt : rotate < 32) :
    (rotateRightMasked x rotate 32).setWidth 32 = (x.setWidth 32).rotateRight rotate := by
  apply BitVec.eq_of_getLsbD_eq
  intro i hi
  have hmask (k : Nat) : (BitVec.allOnes 64 >>> (64 - 32)).getLsbD k = decide (k < 32) := by
    rw [BitVec.getLsbD_ushiftRight, BitVec.getLsbD_allOnes]
    simp
    omega
  have hrotate : rotate % 64 = rotate := Nat.mod_eq_of_lt (by omega)
  rw [BitVec.getLsbD_setWidth, rotateRightMasked, BitVec.getLsbD_and, hmask, rotateRight, hrotate,
    if_pos hpos, BitVec.getLsbD_or, BitVec.getLsbD_shiftLeft, BitVec.getLsbD_ushiftRight,
    BitVec.getLsbD_and, BitVec.getLsbD_and, hmask, hmask, BitVec.getLsbD_rotateRight,
    Nat.mod_eq_of_lt hlt]
  by_cases hlow : i < 32 - rotate
  · simp [hi, hlow, show rotate + i < 32 by omega]
  · simp [hi, hlow, show i < 64 by omega, show ¬rotate + i < 32 by omega,
      show i - (32 - rotate) < 32 by omega]

theorem low_sigma (x : BitVec 64) {a b c : Nat} (ha : 0 < a ∧ a < 32) (hb : 0 < b ∧ b < 32)
    (hc : 0 < c ∧ c < 32) :
    (shaSigma a b c x).setWidth 32 = Sha256.sigma a b c (x.setWidth 32) := by
  have hwide (y : BitVec 32) : (y.setWidth 64).setWidth 32 = y := by simp
  rw [shaSigma, hwide, BitVec.setWidth_xor, BitVec.setWidth_xor, low_rotateRight x ha.1 ha.2,
    low_rotateRight x hb.1 hb.2, low_rotateRight x hc.1 hc.2, Sha256.sigma]

theorem low_suRotate (x : BitVec 64) {a b c : Nat} (ha : 0 < a ∧ a < 32) (hb : 0 < b ∧ b < 32) :
    (shaSuRotate a b c x).setWidth 32 = Sha256.smallSigma a b c (x.setWidth 32) := by
  have hshift : ((x &&& 0xffffffff) >>> c).setWidth 32 = x.setWidth 32 >>> c := by
    apply BitVec.eq_of_getLsbD_eq
    intro i hi
    have hmask : (0xffffffff : BitVec 64).getLsbD (c + i) = decide (c + i < 32) := by
      have hones : (0xffffffff : BitVec 64) = (BitVec.allOnes 32).setWidth 64 := by decide
      rw [hones, BitVec.getLsbD_setWidth, BitVec.getLsbD_allOnes]
      by_cases hlow : c + i < 32
      · simp [hlow, show c + i < 64 by omega]
      · simp [hlow]
    rw [BitVec.getLsbD_setWidth, BitVec.getLsbD_ushiftRight, BitVec.getLsbD_and, hmask,
      BitVec.getLsbD_ushiftRight, BitVec.getLsbD_setWidth]
    simp [hi, Bool.and_comm]
  rw [shaSuRotate, BitVec.setWidth_xor, BitVec.setWidth_xor, low_rotateRight x ha.1 ha.2,
    low_rotateRight x hb.1 hb.2, hshift, Sha256.smallSigma]

theorem low_choose (x y z : BitVec 64) : (cryptoChoose x y z).setWidth 32 =
    Sha256.choose (x.setWidth 32) (y.setWidth 32) (z.setWidth 32) := by
  apply BitVec.eq_of_getLsbD_eq
  intro i hi
  simp only [cryptoChoose, Sha256.choose, BitVec.getLsbD_setWidth, BitVec.getLsbD_xor,
    BitVec.getLsbD_and, BitVec.getLsbD_not, hi, decide_true, Bool.true_and]
  cases x.getLsbD i <;> cases y.getLsbD i <;> cases z.getLsbD i <;> rfl

theorem low_majority (x y z : BitVec 64) : (cryptoMajority x y z).setWidth 32 =
    Sha256.majority (x.setWidth 32) (y.setWidth 32) (z.setWidth 32) := by
  apply BitVec.eq_of_getLsbD_eq
  intro i hi
  simp only [cryptoMajority, Sha256.majority, BitVec.getLsbD_setWidth, BitVec.getLsbD_xor,
    BitVec.getLsbD_and, BitVec.getLsbD_or, hi, decide_true, Bool.true_and]
  cases x.getLsbD i <;> cases y.getLsbD i <;> cases z.getLsbD i <;> rfl

theorem low_add (x y : BitVec 64) : (x + y).setWidth 32 = x.setWidth 32 + y.setWidth 32 :=
  BitVec.setWidth_add x y (by omega)

/-! ## Rounds and the schedule -/

/-- The working variables in two registers. -/
def working (x y : Window (BitVec 32)) : Sha256.Working :=
  ⟨x.first, x.second, x.third, x.fourth, y.first, y.second, y.third, y.fourth⟩

def Window.low (x : Window (BitVec 64)) : Window (BitVec 32) :=
  ⟨x.first.setWidth 32, x.second.setWidth 32, x.third.setWidth 32, x.fourth.setWidth 32⟩

theorem low_round (xy : Window (BitVec 64) × Window (BitVec 64)) (w : BitVec 64) :
    working (Window.low (sha2hRound xy w).1) (Window.low (sha2hRound xy w).2) =
      Sha256.compress (working (Window.low xy.1) (Window.low xy.2)) (w.setWidth 32) := by
  have hbig1 := low_sigma xy.2.first (show 0 < 6 ∧ 6 < 32 by omega) (show 0 < 11 ∧ 11 < 32 by omega)
    (show 0 < 25 ∧ 25 < 32 by omega)
  have hbig0 := low_sigma xy.1.first (show 0 < 2 ∧ 2 < 32 by omega) (show 0 < 13 ∧ 13 < 32 by omega)
    (show 0 < 22 ∧ 22 < 32 by omega)
  simp only [sha2hRound, working, Window.low, shaRotateEltsLeftOne, Sha256.compress, low_add, hbig1,
    hbig0, low_choose, low_majority, BitVec.add_assoc]

theorem low_rounds (xy : Window (BitVec 64) × Window (BitVec 64)) (ws : List (BitVec 64)) :
    working (Window.low (ws.foldl sha2hRound xy).1) (Window.low (ws.foldl sha2hRound xy).2) =
      (ws.map (·.setWidth 32)).foldl Sha256.compress
        (working (Window.low xy.1) (Window.low xy.2)) := by
  induction ws generalizing xy with
  | nil => rfl
  | cons w ws ih => rw [List.foldl_cons, ih, low_round, List.map_cons, List.foldl_cons]

theorem lowWords_setWords (r : SimVRegister) (x : Window (BitVec 64)) :
    (r.setWords x).lowWords = Window.low x := by
  have hlane (i : Nat) (hi : i < 4) := SimVRegister.lane_setUintArray r
    (fun i => (x.get i).setWidth 32) (show 32 * 4 ≤ 2048 by omega) hi
  rw [SimVRegister.lowWords, SimVRegister.setWords, hlane 0 (by omega), hlane 1 (by omega),
    hlane 2 (by omega), hlane 3 (by omega)]
  rfl

theorem low_words (r : SimVRegister) : Window.low r.words = r.lowWords := by
  simp [Window.low, SimVRegister.words, SimVRegister.lowWords]

theorem low_wordList (r : SimVRegister) : r.wordList.map (·.setWidth 32) = r.lowWordList := by
  simp [SimVRegister.wordList, SimVRegister.lowWordList]

theorem working_sha2h (abcd efgh wk : SimVRegister) :
    working (sha2h abcd efgh wk true).lowWords (sha2h efgh abcd wk false).lowWords =
      wk.lowWordList.foldl Sha256.compress (working abcd.lowWords efgh.lowWords) := by
  have hrounds := low_rounds (abcd.words, efgh.words) wk.wordList
  rw [low_wordList, low_words, low_words] at hrounds
  rw [← hrounds]
  simp only [sha2h, lowWords_setWords, if_true, Bool.false_eq_true, if_false]

@[simp] theorem words_first (r : SimVRegister) : r.words.first.setWidth 32 = r.lowWords.first := by
  simp [SimVRegister.words, SimVRegister.lowWords]

@[simp] theorem words_second (r : SimVRegister) :
    r.words.second.setWidth 32 = r.lowWords.second := by
  simp [SimVRegister.words, SimVRegister.lowWords]

@[simp] theorem words_third (r : SimVRegister) : r.words.third.setWidth 32 = r.lowWords.third := by
  simp [SimVRegister.words, SimVRegister.lowWords]

@[simp] theorem words_fourth (r : SimVRegister) :
    r.words.fourth.setWidth 32 = r.lowWords.fourth := by
  simp [SimVRegister.words, SimVRegister.lowWords]

theorem lowWords_schedule {w : Nat → BitVec 32} (hw : Sha256.Extends w) {t : Nat}
    {m0 m1 m2 m3 : SimVRegister} (h0 : m0.lowWords = ⟨w t, w (t + 1), w (t + 2), w (t + 3)⟩)
    (h1 : m1.lowWords = ⟨w (t + 4), w (t + 5), w (t + 6), w (t + 7)⟩)
    (h2 : m2.lowWords = ⟨w (t + 8), w (t + 9), w (t + 10), w (t + 11)⟩)
    (h3 : m3.lowWords = ⟨w (t + 12), w (t + 13), w (t + 14), w (t + 15)⟩) :
    (sha2su1 (sha2su0 m0 m1) m2 m3).lowWords =
      ⟨w (t + 16), w (t + 17), w (t + 18), w (t + 19)⟩ := by
  have hsmall0 (x : BitVec 64) := low_suRotate x (c := 3) (show 0 < 7 ∧ 7 < 32 by omega)
    (show 0 < 18 ∧ 18 < 32 by omega)
  have hsmall1 (x : BitVec 64) := low_suRotate x (c := 10) (show 0 < 17 ∧ 17 < 32 by omega)
    (show 0 < 19 ∧ 19 < 32 by omega)
  have hsu0 : (sha2su0 m0 m1).lowWords =
      ⟨Sha256.smallSigma 7 18 3 (w (t + 1)) + w t, Sha256.smallSigma 7 18 3 (w (t + 2)) + w (t + 1),
        Sha256.smallSigma 7 18 3 (w (t + 3)) + w (t + 2),
          Sha256.smallSigma 7 18 3 (w (t + 4)) + w (t + 3)⟩ := by
    simp only [sha2su0, lowWords_setWords, Window.low, low_add, hsmall0, words_first, words_second,
      words_third, words_fourth, h0, h1]
  have hstep (k : Nat) : Sha256.smallSigma 17 19 10 (w (t + (k + 14))) +
      (Sha256.smallSigma 7 18 3 (w (t + (k + 1))) + w (t + k)) + w (t + (k + 9)) =
        w (t + (k + 16)) := by
    have hextends := hw (t + k)
    simp only [Nat.add_assoc] at hextends
    rw [hextends]
    ac_rfl
  -- The last two words need the first two.
  have h16 := hstep 0
  have h17 := hstep 1
  have h18 := hstep 2
  have h19 := hstep 3
  simp only [Nat.reduceAdd, Nat.add_zero] at h16 h17 h18 h19
  simp only [sha2su1, lowWords_setWords, Window.low, low_add, hsmall1, words_first, words_second,
    words_third, words_fourth, hsu0, h2, h3, h16, h17, h18, h19]

/-! ## SHA-256 programs -/

/-- An instruction of a form with three register fields. -/
structure ShaVisit (leaf : Leaf) (form : String) (rd rn rm : BitVec 5) (v : Visit) : Prop where
  leaf : v.leaf = leaf
  form : v.form = form
  destination : v.word.getRd = rd
  source : v.word.getRn = rn
  operand : v.word.getRm = rm

theorem shaForms :
    formHash "sha256h2_qqv_cryptosha3" ≠ formHash "sha256h_qqv_cryptosha3" ∧
      formHash "sha256su1_vvv_cryptosha3" ≠ formHash "sha256h_qqv_cryptosha3" ∧
        formHash "sha256su1_vvv_cryptosha3" ≠ formHash "sha256h2_qqv_cryptosha3" := by
  decide +kernel

theorem ShaVisit.setsHash {other : Leaf} {rd rn rm : BitVec 5} {v : Visit}
    (h : ShaVisit (visitCrypto3RegSHA other) "sha256h_qqv_cryptosha3" rd rn rm v) :
    v.Sets rd fun c => sha2h (c.vregister rd) (c.vregister rn) (c.vregister rm) true := by
  apply Visit.sets_of_leaf
  intro c hash hhash
  rw [h.form] at hhash
  have hform : (c.writeFormHash hash).formHash = formHash "sha256h_qqv_cryptosha3" := hhash
  rw [h.leaf, visitCrypto3RegSHA, if_pos hform, h.destination, h.source, h.operand]
  rfl

theorem ShaVisit.setsHash2 {other : Leaf} {rd rn rm : BitVec 5} {v : Visit}
    (h : ShaVisit (visitCrypto3RegSHA other) "sha256h2_qqv_cryptosha3" rd rn rm v) :
    v.Sets rd fun c => sha2h (c.vregister rd) (c.vregister rn) (c.vregister rm) false := by
  apply Visit.sets_of_leaf
  intro c hash hhash
  rw [h.form] at hhash
  have hform : (c.writeFormHash hash).formHash = formHash "sha256h2_qqv_cryptosha3" := hhash
  have hfirst : (c.writeFormHash hash).formHash ≠ formHash "sha256h_qqv_cryptosha3" := by
    rw [hform]
    exact shaForms.1
  rw [h.leaf, visitCrypto3RegSHA, if_neg hfirst, if_pos hform, h.destination, h.source, h.operand]
  rfl

theorem ShaVisit.setsSu1 {other : Leaf} {rd rn rm : BitVec 5} {v : Visit}
    (h : ShaVisit (visitCrypto3RegSHA other) "sha256su1_vvv_cryptosha3" rd rn rm v) :
    v.Sets rd fun c => sha2su1 (c.vregister rd) (c.vregister rn) (c.vregister rm) := by
  apply Visit.sets_of_leaf
  intro c hash hhash
  rw [h.form] at hhash
  have hform : (c.writeFormHash hash).formHash = formHash "sha256su1_vvv_cryptosha3" := hhash
  have hfirst : (c.writeFormHash hash).formHash ≠ formHash "sha256h_qqv_cryptosha3" := by
    rw [hform]
    exact shaForms.2.1
  have hsecond : (c.writeFormHash hash).formHash ≠ formHash "sha256h2_qqv_cryptosha3" := by
    rw [hform]
    exact shaForms.2.2
  rw [h.leaf, visitCrypto3RegSHA, if_neg hfirst, if_neg hsecond, if_pos hform, h.destination,
    h.source, h.operand]
  rfl

theorem ShaVisit.setsSu0 {other : Leaf} {rd rn rm : BitVec 5} {v : Visit}
    (h : ShaVisit (visitCrypto2RegSHA other) "sha256su0_vv_cryptosha2" rd rn rm v) :
    v.Sets rd fun c => sha2su0 (c.vregister rd) (c.vregister rn) := by
  apply Visit.sets_of_leaf
  intro c hash hhash
  rw [h.form] at hhash
  have hform : (c.writeFormHash hash).formHash = formHash "sha256su0_vv_cryptosha2" := hhash
  rw [h.leaf, visitCrypto2RegSHA, if_pos hform, h.destination, h.source]
  rfl

/-- Groups of a move, `SHA256H` and `SHA256H2`, one for each register of words. -/
inductive RoundsProgram (other : Leaf) (abcd efgh temp : BitVec 5) :
    List (BitVec 5) → List Visit → Prop where
  | nil : RoundsProgram other abcd efgh temp [] []
  | cons {r : BitVec 5} {rs : List (BitVec 5)} {move hash hash2 : Visit} {rest : List Visit}
      (hmove : BitwiseVisit 0x0ea01c00 temp abcd abcd move)
      (hhash : ShaVisit (visitCrypto3RegSHA other) "sha256h_qqv_cryptosha3" abcd efgh r hash)
      (hhash2 : ShaVisit (visitCrypto3RegSHA other) "sha256h2_qqv_cryptosha3" efgh temp r hash2)
      (hrest : RoundsProgram other abcd efgh temp rs rest) :
      RoundsProgram other abcd efgh temp (r :: rs) (move :: hash :: hash2 :: rest)

/-- The working variables in two registers of a state. -/
def Core.working (c : Core) (abcd efgh : BitVec 5) : Sha256.Working :=
  Aarch64.working (c.vregister abcd).lowWords (c.vregister efgh).lowWords

/-- The words of some registers, in order. -/
def Core.lowWords (c : Core) (rs : List (BitVec 5)) : List (BitVec 32) :=
  rs.flatMap fun r => (c.vregister r).lowWordList

/--
A program of `SHA256H` and `SHA256H2` runs the compression function for the
words of its registers, four rounds for each group.
-/
theorem sha256_rounds {other : Leaf} {abcd efgh temp : BitVec 5} {rs : List (BitVec 5)}
    {vs : List Visit} (h : RoundsProgram other abcd efgh temp rs vs)
    (hdistinct : [abcd, efgh, temp].Nodup) (hrs : ∀ r ∈ rs, r ∉ [abcd, efgh, temp]) (c : Core) :
    ∃ c', runVisits vs c = .ok c' ∧
      c'.working abcd efgh = (c.lowWords rs).foldl Sha256.compress (c.working abcd efgh) ∧
        WritesOnly [abcd, efgh, temp] c c' := by
  induction h generalizing c with
  | nil => exact ⟨c, rfl, rfl, WritesOnly.refl _ c⟩
  | @cons r rs move hash hash2 rest hmove hhash hhash2 hprogram ih =>
      obtain ⟨c1, hrun1, hc1, hrest1⟩ := hmove.setsOr.run c
      obtain ⟨c2, hrun2, hc2, hrest2⟩ := hhash.setsHash.run c1
      obtain ⟨c3, hrun3, hc3, hrest3⟩ := hhash2.setsHash2.run c2
      have hwrites : WritesOnly [abcd, efgh, temp] c c3 :=
        ((hrest1.mono (by simp)).trans (hrest2.mono (by simp))).trans (hrest3.mono (by simp))
      have hne : (abcd ≠ efgh ∧ abcd ≠ temp) ∧ efgh ≠ temp := by simpa using hdistinct
      have hr : r ≠ abcd ∧ r ≠ efgh ∧ r ≠ temp := by simpa using hrs r List.mem_cons_self
      obtain ⟨c', hrun, hc', hrest⟩ := ih (fun s hs => hrs s (List.mem_cons_of_mem r hs)) c3
      have hmoved : (c2.vregister temp).words = (c.vregister abcd).words := by
        rw [hrest2.other hne.1.2.symm, hc1]
        simp [SimVRegister.words, lane_move]
      have habcd : c3.vregister abcd =
          sha2h (c.vregister abcd) (c.vregister efgh) (c.vregister r) true := by
        rw [hrest3.other hne.1.1, hc2, hrest1.other hne.1.2, hrest1.other hne.2,
          hrest1.other hr.2.2]
      have hefgh : c3.vregister efgh =
          sha2h (c.vregister efgh) (c.vregister abcd) (c.vregister r) false := by
        rw [hc3, hrest2.other hne.1.1.symm, hrest1.other hne.2, hrest2.other hr.1,
          hrest1.other hr.2.2]
        simp only [sha2h, Bool.false_eq_true, if_false, hmoved]
      have hworking : c3.working abcd efgh =
          (c.vregister r).lowWordList.foldl Sha256.compress (c.working abcd efgh) := by
        rw [Core.working, habcd, hefgh]
        exact working_sha2h _ _ _
      have hwords : c3.lowWords rs = c.lowWords rs :=
        List.flatMap_congr fun s hs => by
          rw [hwrites.others s (hrs s (List.mem_cons_of_mem r hs))]
      refine ⟨c', ?_, ?_, hwrites.trans hrest⟩
      · rw [runVisits_cons hrun1, runVisits_cons hrun2, runVisits_cons hrun3, hrun]
      · rw [hc', hworking, hwords, Core.lowWords, Core.lowWords, List.flatMap_cons,
          List.foldl_append]

/-- A state, a constant and the words 0 to 15 in registers. -/
def shaRegisters : Core :=
  { (default : Core) with
    vregisters := fun i => match i.val with
      | 0 => ⟨0xa54ff53a3c6ef372bb67ae856a09e667, 16⟩
      | 1 => ⟨0x5be0cd191f83d9ab9b05688c510e527f, 16⟩
      | 3 => ⟨0xe9b5dba5b5c0fbcf71374491428a2f98, 16⟩
      | 4 => ⟨0x00000003000000020000000100000000, 16⟩
      | 5 => ⟨0x00000007000000060000000500000004, 16⟩
      | 6 => ⟨0x0000000b0000000a0000000900000008, 16⟩
      | 7 => ⟨0x0000000f0000000e0000000d0000000c, 16⟩
      | _ => ⟨0, 16⟩ }

def unchanged : Leaf := fun _ c => .done c

theorem roundsProgram_one : RoundsProgram unchanged 0 1 2 [3]
    [⟨"orr_asimdsame_only", visitNEON3Same unchanged, 0x4ea01c02⟩,
      ⟨"sha256h_qqv_cryptosha3", visitCrypto3RegSHA unchanged, 0x5e034020⟩,
      ⟨"sha256h2_qqv_cryptosha3", visitCrypto3RegSHA unchanged, 0x5e035041⟩] :=
  .cons ⟨⟨_, rfl⟩, by decide, by decide, by decide, by decide, by decide⟩
    ⟨rfl, rfl, by decide, by decide, by decide⟩ ⟨rfl, rfl, by decide, by decide, by decide⟩ .nil

/-- `ORR V2, V0, V0`, `SHA256H Q0, Q1, V3` and `SHA256H2 Q1, Q2, V3`. -/
theorem sha256_rounds_four :
    ∃ c', runVisits [⟨"orr_asimdsame_only", visitNEON3Same unchanged, 0x4ea01c02⟩,
        ⟨"sha256h_qqv_cryptosha3", visitCrypto3RegSHA unchanged, 0x5e034020⟩,
        ⟨"sha256h2_qqv_cryptosha3", visitCrypto3RegSHA unchanged, 0x5e035041⟩] shaRegisters =
          .ok c' ∧
      c'.working 0 1 = (shaRegisters.lowWords [3]).foldl Sha256.compress
        (shaRegisters.working 0 1) ∧ WritesOnly [0, 1, 2] shaRegisters c' :=
  sha256_rounds roundsProgram_one (by decide) (by decide) shaRegisters

/-- Pairs of `SHA256SU0` and `SHA256SU1`; the registers move up by one with each of them. -/
inductive ScheduleProgram (other : Leaf) : Window (BitVec 5) → Nat → List Visit → Prop where
  | nil {m : Window (BitVec 5)} : ScheduleProgram other m 0 []
  | cons {m : Window (BitVec 5)} {n : Nat} {su0 su1 : Visit} {rest : List Visit} {unused : BitVec 5}
      (hsu0 : ShaVisit (visitCrypto2RegSHA other) "sha256su0_vv_cryptosha2" m.first m.second unused
        su0)
      (hsu1 : ShaVisit (visitCrypto3RegSHA other) "sha256su1_vvv_cryptosha3" m.first m.third
        m.fourth su1)
      (hrest : ScheduleProgram other ⟨m.second, m.third, m.fourth, m.first⟩ n rest) :
      ScheduleProgram other m (n + 1) (su0 :: su1 :: rest)

/-- The registers after some pairs. -/
def rotated {α : Type} : Nat → Window α → Window α
  | 0, m => m
  | n + 1, m => rotated n ⟨m.second, m.third, m.fourth, m.first⟩

/-- Four registers hold the words of a schedule from `t` on. -/
structure HoldsSchedule (w : Nat → BitVec 32) (t : Nat) (m : Window (BitVec 5)) (c : Core) :
    Prop where
  first : (c.vregister m.first).lowWords = ⟨w t, w (t + 1), w (t + 2), w (t + 3)⟩
  second : (c.vregister m.second).lowWords = ⟨w (t + 4), w (t + 5), w (t + 6), w (t + 7)⟩
  third : (c.vregister m.third).lowWords = ⟨w (t + 8), w (t + 9), w (t + 10), w (t + 11)⟩
  fourth : (c.vregister m.fourth).lowWords = ⟨w (t + 12), w (t + 13), w (t + 14), w (t + 15)⟩

def Window.toList {α : Type} (m : Window α) : List α := [m.first, m.second, m.third, m.fourth]

/--
A program of `SHA256SU0` and `SHA256SU1` on four registers with sixteen words
of a schedule replaces them with the next ones, four words for each pair.
-/
theorem sha256_schedule {other : Leaf} {m : Window (BitVec 5)} {n : Nat} {vs : List Visit}
    (h : ScheduleProgram other m n vs) (hdistinct : (Window.toList m).Nodup)
    {w : Nat → BitVec 32} (hw : Sha256.Extends w) {t : Nat} {c : Core}
    (hc : HoldsSchedule w t m c) :
    ∃ c', runVisits vs c = .ok c' ∧ HoldsSchedule w (t + 4 * n) (rotated n m) c' ∧
      WritesOnly (Window.toList m) c c' := by
  induction h generalizing c t with
  | nil => exact ⟨c, rfl, hc, WritesOnly.refl _ c⟩
  | @cons m n su0 su1 rest unused hsu0 hsu1 hprogram ih =>
      obtain ⟨m0, m1, m2, m3⟩ := m
      obtain ⟨c1, hrun1, hc1, hrest1⟩ := hsu0.setsSu0.run c
      obtain ⟨c2, hrun2, hc2, hrest2⟩ := hsu1.setsSu1.run c1
      have hne : m0 ≠ m1 ∧ m0 ≠ m2 ∧ m0 ≠ m3 ∧ m1 ≠ m2 ∧ m1 ≠ m3 ∧ m2 ≠ m3 := by
        simpa [Window.toList, and_assoc] using hdistinct
      have hkept (r : BitVec 5) (hr : r ≠ m0) : c2.vregister r = c.vregister r := by
        rw [hrest2.other hr, hrest1.other hr]
      have hextended : (c2.vregister m0).lowWords =
          ⟨w (t + 16), w (t + 17), w (t + 18), w (t + 19)⟩ := by
        rw [hc2, hc1, hrest1.other hne.2.1.symm, hrest1.other hne.2.2.1.symm]
        exact lowWords_schedule hw hc.first hc.second hc.third hc.fourth
      have hholds : HoldsSchedule w (t + 4) ⟨m1, m2, m3, m0⟩ c2 :=
        { first := by rw [hkept m1 hne.1.symm]; exact hc.second
          second := by rw [hkept m2 hne.2.1.symm]; exact hc.third
          third := by rw [hkept m3 hne.2.2.1.symm]; exact hc.fourth
          fourth := hextended }
      have hrotate : (Window.toList (⟨m1, m2, m3, m0⟩ : Window (BitVec 5))).Nodup := by
        simp [Window.toList, hne, hne.1.symm, hne.2.1.symm, hne.2.2.1.symm]
      obtain ⟨c', hrun, hc', hrest⟩ := ih hrotate hholds
      have hfirst : WritesOnly (Window.toList ⟨m0, m1, m2, m3⟩) c c2 :=
        (hrest1.mono (by simp [Window.toList])).trans (hrest2.mono (by simp [Window.toList]))
      refine ⟨c', ?_, ?_, hfirst.trans (hrest.mono ?_)⟩
      · rw [runVisits_cons hrun1, runVisits_cons hrun2, hrun]
      · rw [show t + 4 * (n + 1) = t + 4 + 4 * n by omega]
        exact hc'
      · intro r hr
        simp only [Window.toList, List.mem_cons, List.not_mem_nil, or_false] at hr ⊢
        tauto

theorem scheduleProgram_one : ScheduleProgram unchanged ⟨4, 5, 6, 7⟩ 1
    [⟨"sha256su0_vv_cryptosha2", visitCrypto2RegSHA unchanged, 0x5e2828a4⟩,
      ⟨"sha256su1_vvv_cryptosha3", visitCrypto3RegSHA unchanged, 0x5e0760c4⟩] :=
  .cons ⟨rfl, rfl, by decide, by decide, rfl⟩ ⟨rfl, rfl, by decide, by decide, by decide⟩ .nil

/-- `SHA256SU0 V4, V5` and `SHA256SU1 V4, V6, V7` on the words 0 to 15. -/
theorem sha256_schedule_four :
    ∃ c', runVisits [⟨"sha256su0_vv_cryptosha2", visitCrypto2RegSHA unchanged, 0x5e2828a4⟩,
        ⟨"sha256su1_vvv_cryptosha3", visitCrypto3RegSHA unchanged, 0x5e0760c4⟩] shaRegisters =
          .ok c' ∧
      HoldsSchedule (Sha256.schedule (BitVec.ofNat 32)) (0 + 4 * 1) (rotated 1 ⟨4, 5, 6, 7⟩) c' ∧
        WritesOnly (Window.toList ⟨4, 5, 6, 7⟩) shaRegisters c' :=
  sha256_schedule scheduleProgram_one (by decide) (Sha256.schedule_extends (BitVec.ofNat 32))
    ⟨by decide +kernel, by decide +kernel, by decide +kernel, by decide +kernel⟩

end GabyVm.Aarch64
