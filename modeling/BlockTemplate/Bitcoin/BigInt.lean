import BlockTemplate.Bitcoin.Node
import BlockTemplate.Wire.Reader

/-!
# `bigint.js`

The difficulty of a target.  Targets come as hexadecimal text.  The quotient
is kept as the integer that is converted to a double at the end, in units of
`1 / DIFF_PRECISION`.
-/

namespace BlockTemplate.BigInt

def baseDiff : Nat := 2 ^ 256 - 1

def baseRavenDiff : Nat := 0xff * 2 ^ 216

def diffPrecision : Nat := 1000000000

/-- The white space that `BigInt` allows behind the digits. -/
def isWhiteSpace (char : Char) : Bool :=
  [9, 10, 11, 12, 13, 32, 0xa0, 0x1680, 0x2000, 0x2001, 0x2002, 0x2003,
    0x2004, 0x2005, 0x2006, 0x2007, 0x2008, 0x2009, 0x200a, 0x2028, 0x2029,
    0x202f, 0x205f, 0x3000, 0xfeff].contains char.toNat

def hexDigits : JsString → Nat → Option Nat
  | [], value => some value
  | digit :: rest, value =>
    match hexValue digit with
    | some low => hexDigits rest (16 * value + low)
    | none => none

/-- `BigInt("0x" + value)`. -/
def parseBigInt (value : JsString) : Option Nat :=
  let digits := (value.reverse.dropWhile isWhiteSpace).reverse
  if digits.isEmpty then none else hexDigits digits 0

def parsePositiveBigInt (value : JsString) (label : String) :
    Except String Nat :=
  match parseBigInt value with
  | none => .error ("Invalid " ++ label)
  | some 0 => .error ("Invalid " ++ label)
  | some parsed => .ok parsed

def difficultyToFloat (base : Nat) (target : JsString) (label : String) :
    Except String Nat :=
  (parsePositiveBigInt target label).map fun divisor =>
    base * diffPrecision / divisor

end BlockTemplate.BigInt
