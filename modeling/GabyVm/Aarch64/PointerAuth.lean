import GabyVm.Aarch64.Instruction

/-!
# Pointer authentication

The simulator's own pointer authentication codes: a non-standard mixing of a
pointer, a context and a key, of which bits 48 to 54 are stored in the
pointer.  All pointers are tagged, so the top code bit is 55 and bit 55 itself
selects the translation table.
-/

namespace GabyVm.Aarch64

structure PACKey where
  high : BitVec 64
  low : BitVec 64
  number : Nat
  deriving DecidableEq, Repr

def PACKeyIA : PACKey := ⟨0xc31718727de20f71, 0xab9fd4e14b2fec51, 0⟩

def PACKeyIB : PACKey := ⟨0xeebb163b474e04c8, 0x5267ac6fc280fb7c, 1⟩

def ttbrMask : BitVec 64 := 1#64 <<< 55

def getBottomPACBit : Nat := 48

def getTopPACBit : Nat := 55

/-! ## Mixing -/

def getNibble (inData : BitVec 64) (position : Nat) : BitVec 64 :=
  inData >>> position &&& 0xf

/-- Collect sixteen nibbles, the first one lowest. -/
def ofNibbles (nibbles : List (BitVec 64)) : BitVec 64 :=
  nibbles.foldr (fun nibble rest => rest <<< 4 ||| nibble) 0

def shuffleNibbles (inData : BitVec 64) : BitVec 64 :=
  ofNibbles ([4, 36, 52, 40, 44, 0, 24, 12, 56, 60, 8, 32, 16, 28, 20, 48].map
    fun position => getNibble inData position)

def substituteNibble (nibble : BitVec 64) : BitVec 64 :=
  [4, 7, 3, 9, 10, 14, 0, 1, 15, 2, 8, 6, 12, 5, 11, 13].getD nibble.toNat 0

def substituteNibbles (inData : BitVec 64) : BitVec 64 :=
  ofNibbles ((List.range 16).map fun i => substituteNibble (getNibble inData (4 * i)))

def rotNibble (inCell : BitVec 64) (amount : Nat) : BitVec 64 :=
  let cell := inCell &&& 0xf
  (cell <<< 4 ||| cell) >>> (4 - amount) &&& 0xf

/-- The four output nibbles of one column, lowest first. -/
def mixColumn (n0 n4 n8 n12 : BitVec 64) : List (BitVec 64) :=
  [rotNibble n12 1 ^^^ rotNibble n8 1 ^^^ rotNibble n4 2,
    rotNibble n12 2 ^^^ rotNibble n8 1 ^^^ rotNibble n0 1,
    rotNibble n12 1 ^^^ rotNibble n4 2 ^^^ rotNibble n0 1,
    rotNibble n8 2 ^^^ rotNibble n4 1 ^^^ rotNibble n0 1]

def bigShuffle (inData : BitVec 64) : BitVec 64 :=
  (List.range 4).foldl (fun outData i =>
    let column := mixColumn (getNibble inData (4 * i)) (getNibble inData (4 * (i + 4)))
      (getNibble inData (4 * (i + 8))) (getNibble inData (4 * (i + 12)))
    outData ||| column.getD 0 0 <<< (4 * i) ||| column.getD 1 0 <<< (4 * (i + 4)) |||
      column.getD 2 0 <<< (4 * (i + 8)) ||| column.getD 3 0 <<< (4 * (i + 12))) 0

def computePAC (data context : BitVec 64) (key : PACKey) : BitVec 64 :=
  let workingValue := bigShuffle (data ^^^ key.high)
  let workingValue := shuffleNibbles workingValue
  let workingValue := shuffleNibbles (workingValue ^^^ key.low)
  let workingValue := bigShuffle workingValue
  let workingValue := substituteNibbles (workingValue ^^^ context)
  let workingValue := bigShuffle workingValue
  substituteNibbles workingValue

/-! ## Authentication -/

/-- Bits 48 to 54: the field from the bottom to the top code bit, without bit 55. -/
def pacMask : BitVec 64 :=
  (~~~ttbrMask >>> getBottomPACBit &&& (1#64 <<< (getTopPACBit - getBottomPACBit + 1) - 1))
    <<< getBottomPACBit

def stripPAC (ptr : BitVec 64) : BitVec 64 :=
  if ptr &&& ttbrMask == 0 then ptr &&& ~~~pacMask else ptr ||| pacMask

def errorLsb : Nat := getTopPACBit - 2

def authPAC (ptr context : BitVec 64) (key : PACKey) : BitVec 64 :=
  let originalPtr := stripPAC ptr
  let pac := computePAC originalPtr context key
  if pac &&& pacMask == ptr &&& pacMask then originalPtr
  else
    (originalPtr &&& ~~~(3#64 <<< errorLsb)) ||| 1#64 <<< key.number <<< errorLsb

/-- The check the branch visitors make on an authenticated address. -/
def authFailed (addr : BitVec 64) : Bool := addr >>> errorLsb &&& 3 != 0

end GabyVm.Aarch64
