/-!
Doubles, in exact integer arithmetic.

A finite double is a sign, a significand and a power of two. Integrality, rounding, printing and
reading go through this form and through exact ratios of natural numbers. A double prints with the
fewest digits that only it is nearest to, and a numeral reads as the double nearest to it.
-/

set_option autoImplicit false
set_option relaxedAutoImplicit false

namespace JsonScript.Number

/-- What the bits of a double stand for; a finite one is `± significand * 2 ^ exponent`. -/
inductive Form where
  | nan
  | infinite (negative : Bool)
  | finite (negative : Bool) (significand : Nat) (exponent : Int)
  deriving DecidableEq, Repr

def signUnit : Nat := 0x8000000000000000

/-- The place of the exponent among the bits of a double, 2^52; the fraction is below it. -/
def exponentUnit : Nat := 0x10000000000000

def form (x : Float) : Form :=
  let bits := x.toBits.toNat
  let negative := decide (signUnit ≤ bits)
  let biased : Nat := bits / exponentUnit % 2048
  let fraction : Nat := bits % exponentUnit
  if biased = 2047 then
    if fraction = 0 then .infinite negative else .nan
  else if biased = 0 then .finite negative fraction (-1074)
  else .finite negative (fraction + exponentUnit) ((biased : Int) - 1075)

def wholeMagnitude? (significand : Nat) : Int → Option Nat
  | .ofNat shift => some (significand * Nat.pow 2 shift)
  | .negSucc below =>
    let unit := Nat.pow 2 (below + 1)
    if significand % unit = 0 then some (significand / unit) else none

def safeLimit : Nat := 0x20000000000000

def integer? (x : Float) : Option Int :=
  match form x with
  | .finite negative significand exponent =>
    match wholeMagnitude? significand exponent with
    | some magnitude =>
      if magnitude ≤ safeLimit then some (if negative then -magnitude else magnitude) else none
    | none => none
  | _ => none

def isFinite (x : Float) : Bool :=
  match form x with
  | .finite _ _ _ => true
  | _ => false

/-- A ratio that is not negative, kept as it comes. -/
structure Ratio where
  numerator : Nat
  denominator : Nat

namespace Ratio

def ofBinary (count : Nat) : Int → Ratio
  | .ofNat shift => ⟨count * Nat.pow 2 shift, 1⟩
  | .negSucc below => ⟨count, Nat.pow 2 (below + 1)⟩

def ofDecimal (count : Nat) : Int → Ratio
  | .ofNat shift => ⟨count * Nat.pow 10 shift, 1⟩
  | .negSucc below => ⟨count, Nat.pow 10 (below + 1)⟩

def scaleDown (base : Nat) (r : Ratio) : Int → Ratio
  | .ofNat shift => ⟨r.numerator, r.denominator * Nat.pow base shift⟩
  | .negSucc below => ⟨r.numerator * Nat.pow base (below + 1), r.denominator⟩

def lt (r s : Ratio) : Bool :=
  decide (r.numerator * s.denominator < s.numerator * r.denominator)

private def width (n : Nat) : Nat :=
  (Nat.toDigits 10 n).length

def decimalMagnitude (r : Ratio) : Int :=
  if r.denominator ≤ r.numerator then (width (r.numerator / r.denominator) : Int) - 1
  else -(width ((r.denominator + r.numerator - 1) / r.numerator - 1) : Int)

def binaryMagnitude (r : Ratio) : Int :=
  if r.denominator ≤ r.numerator then ((r.numerator / r.denominator).log2 : Int)
  else -(((r.denominator + r.numerator - 1) / r.numerator - 1).log2 + 1 : Int)

def round (r : Ratio) : Nat :=
  let below := r.numerator / r.denominator
  let twiceRest := 2 * (r.numerator % r.denominator)
  if twiceRest < r.denominator then below
  else if r.denominator < twiceRest then below + 1
  else below + below % 2

end Ratio

def infinityBits : Nat := 2047 * exponentUnit

/-- The bits of a double `significand * 2 ^ exponent`, where the significand has 53 binary digits
or the exponent is the least one. -/
def packed (significand : Nat) (exponent : Int) : Nat :=
  min ((exponent + 1074).toNat * exponentUnit + significand) infinityBits

def Ratio.unitExponent (r : Ratio) : Int :=
  max (r.binaryMagnitude - 52) (-1074)

def Ratio.nearestBits (r : Ratio) : Nat :=
  if r.numerator = 0 then 0
  else packed (r.scaleDown 2 r.unitExponent).round r.unitExponent

def ofSignedBits (negative : Bool) (bits : Nat) : Float :=
  .ofBits (.ofNat ((if negative then signUnit else 0) + bits))

def nearest (negative : Bool) (r : Ratio) : Float :=
  ofSignedBits negative r.nearestBits

def ofInteger (n : Int) : Float :=
  nearest (decide (n < 0)) ⟨n.natAbs, 1⟩

inductive Tie where
  | toEven
  | awayFromZero
  deriving DecidableEq, Repr

structure Decimal where
  digits : Nat
  exponent : Int
  deriving DecidableEq, Repr

structure RoundingInterval where
  value : Ratio
  lower : Ratio
  upper : Ratio
  closed : Bool

/-- The interval of a positive double `significand * 2 ^ exponent`; below a power of two the next
double is only half as far away. -/
def roundingInterval (significand : Nat) (exponent : Int) : RoundingInterval :=
  let gap := if significand = exponentUnit ∧ -1074 < exponent then 1 else 2
  { value := .ofBinary (4 * significand) (exponent - 2)
    lower := .ofBinary (4 * significand - gap) (exponent - 2)
    upper := .ofBinary (4 * significand + 2) (exponent - 2)
    closed := significand % 2 = 0 }

def RoundingInterval.holds (i : RoundingInterval) (candidate : Ratio) : Bool :=
  if i.closed then !candidate.lt i.lower && !i.upper.lt candidate
  else i.lower.lt candidate && candidate.lt i.upper

def nearer (tie : Tie) (value : Ratio) (below : Nat) (exponent : Int) : Nat :=
  let middle := Ratio.ofDecimal (2 * below + 1) exponent
  let twice : Ratio := ⟨2 * value.numerator, value.denominator⟩
  if twice.lt middle then below
  else if middle.lt twice then below + 1
  else match tie with
    | .toEven => if below % 2 = 0 then below else below + 1
    | .awayFromZero => below + 1

def onGrid? (tie : Tie) (i : RoundingInterval) (exponent : Int) : Option Decimal :=
  let scaled := i.value.scaleDown 10 exponent
  let below := scaled.numerator / scaled.denominator
  match i.holds (.ofDecimal below exponent), i.holds (.ofDecimal (below + 1) exponent) with
  | true, true => some ⟨nearer tie i.value below exponent, exponent⟩
  | true, false => some ⟨below, exponent⟩
  | false, true => some ⟨below + 1, exponent⟩
  | false, false => none

def Decimal.trim : Nat → Decimal → Decimal
  | 0, d => d
  | limit + 1, d =>
    if d.digits % 10 = 0 then Decimal.trim limit ⟨d.digits / 10, d.exponent + 1⟩ else d

def shortest (tie : Tie) (significand : Nat) (exponent : Int) : Decimal :=
  let interval := roundingInterval significand exponent
  let leading := interval.value.decimalMagnitude
  match (List.range 17).findSome? (fun count : Nat => onGrid? tie interval (leading - count)) with
  | some d => d.trim 20
  | none => ⟨0, 0⟩

/-- The decisions of one number format. -/
structure Layout where
  leastPositional : Int
  greatestPositional : Int
  exponentSign : String
  tie : Tie
  nan : String
  infinity : String

def zeros (count : Nat) : String :=
  String.ofList (List.replicate count '0')

def positional (digits : String) (point : Int) : String :=
  match point with
  | .ofNat whole =>
    if whole = 0 then "0." ++ digits
    else if whole < digits.length then
      String.ofList (digits.toList.take whole) ++ "." ++ String.ofList (digits.toList.drop whole)
    else digits ++ zeros (whole - digits.length) ++ ".0"
  | .negSucc below => "0." ++ zeros (below + 1) ++ digits

def scientific (exponentSign : String) (digits : String) (exponent : Int) : String :=
  let mantissa :=
    match digits.toList with
    | first :: next :: rest => String.ofList (first :: '.' :: next :: rest)
    | _ => digits
  mantissa ++ "e" ++ (if exponent < 0 then "" else exponentSign) ++ toString exponent

def Layout.decimal (layout : Layout) (d : Decimal) : String :=
  let digits := toString d.digits
  let point := (digits.length : Int) + d.exponent
  let exponent := point - 1
  if layout.leastPositional ≤ exponent ∧ exponent ≤ layout.greatestPositional then
    positional digits point
  else scientific layout.exponentSign digits exponent

def Layout.text (layout : Layout) (x : Float) : String :=
  match form x with
  | .nan => layout.nan
  | .infinite negative => (if negative then "-" else "") ++ layout.infinity
  | .finite negative significand exponent =>
    (if negative then "-" else "") ++
      if significand = 0 then "0.0"
      else layout.decimal (shortest layout.tie significand exponent)

/-- A number as it is written: `± digits * 10 ^ exponent`. -/
structure Written where
  negative : Bool
  digits : Nat
  exponent : Int
  deriving DecidableEq, Repr

private def tooLarge : Int := 310

private def tooSmall : Int := -330

/-- The bits of the magnitude of a written number. Exponents far outside the range of doubles are
settled by the number of digits, so that no power of ten is computed for them. -/
def Written.magnitudeBits (w : Written) : Nat :=
  let size := ((Nat.toDigits 10 w.digits).length : Int) + w.exponent
  if w.digits = 0 ∨ size < tooSmall then 0
  else if tooLarge < size then infinityBits
  else (Ratio.ofDecimal w.digits w.exponent).nearestBits

/-- The double nearest to a written number; a zero keeps its sign. -/
def Written.toFloat (w : Written) : Float :=
  ofSignedBits w.negative w.magnitudeBits

def digitsValue (digits : List Char) : Nat :=
  digits.foldl (fun n c => 10 * n + (c.toNat - '0'.toNat)) 0

private def takeSign : List Char → Bool × List Char
  | '-' :: rest => (true, rest)
  | '+' :: rest => (false, rest)
  | rest => (false, rest)

private def exponentPart? : List Char → Option Int
  | [] => some 0
  | mark :: rest =>
    if mark = 'e' ∨ mark = 'E' then
      let (negative, digits) := takeSign rest
      if digits ≠ [] ∧ digits.all Char.isDigit then
        some (if negative then -(digitsValue digits : Int) else digitsValue digits)
      else none
    else none

/-- Read the text of a double: digits with an optional sign, point and exponent, or a name of NaN
or infinity in letters of any case. -/
def read? (text : String) : Option Float :=
  let (negative, body) := takeSign text.toList
  let word := String.ofList (body.map Char.toLower)
  if word = "nan" then some (0.0 / 0.0)
  else if word = "inf" ∨ word = "infinity" then some (ofSignedBits negative infinityBits)
  else
    let whole := body.takeWhile Char.isDigit
    let rest := body.dropWhile Char.isDigit
    let (fraction, rest) :=
      match rest with
      | '.' :: rest => (rest.takeWhile Char.isDigit, rest.dropWhile Char.isDigit)
      | rest => ([], rest)
    if whole = [] ∧ fraction = [] then none
    else (exponentPart? rest).map fun exponent =>
      Written.toFloat ⟨negative, digitsValue (whole ++ fraction), exponent - fraction.length⟩

def readInteger? (text : String) : Option Int :=
  let (negative, digits) := takeSign text.toList
  if digits ≠ [] ∧ digits.all Char.isDigit then
    some (if negative then -(digitsValue digits : Int) else digitsValue digits)
  else none

end JsonScript.Number
