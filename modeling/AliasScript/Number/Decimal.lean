import AliasScript.Number.Binary

/-!
# Decimal text of numbers

A number is written with the fewest digits that read back to it, and always positionally. Among the
decimals of that length the nearest one is taken, and of two that are equally near the larger. The
search is over exact natural numbers: the reals that round to a number form an interval, and on each
decimal grid only the two neighbours of the number have to be tried.

Reading accepts an optional sign, then digits with an optional point and an optional exponent, or
the name of an infinity or of the value that is no number. The result is the number nearest to what
is written, however many digits there are; only of an exponent the digits beyond a limit are passed
over.
-/

namespace AliasScript

/-- The decimal `digits * 10 ^ exponent`. -/
structure Decimal where
  digits : Nat
  exponent : Int
deriving DecidableEq, Repr

namespace Decimal

/-- The power `10 ^ n`. -/
def tenTo (n : Nat) : Nat :=
  Nat.pow 10 n

/-- Compares `a * 10 ^ i` with `n * 2 ^ j`. -/
def compareScaled (a : Nat) (i : Int) (n : Nat) (j : Int) : Ordering :=
  compare ((a * tenTo i.toNat) <<< (-j).toNat) ((n * tenTo (-i).toNat) <<< j.toNat)

/-- Whether the neighbour below is half as far away as the neighbour above, which is so for the
powers of two that are not among the least values. -/
def narrowBelow (s : Scaled) : Bool :=
  s.significand == 1 <<< 52 && decide (-1074 < s.exponent)

/-- Whether the decimal lies among the reals that round to the magnitude, ties going to even. -/
def readsBack (s : Scaled) (d : Decimal) : Bool :=
  let low := if narrowBelow s then 4 * s.significand - 1 else 4 * s.significand - 2
  let high := 4 * s.significand + 2
  let closed := s.significand % 2 == 0
  let below := compareScaled d.digits d.exponent low (s.exponent - 2)
  let above := compareScaled d.digits d.exponent high (s.exponent - 2)
  (below == .gt || (closed && below == .eq)) && (above == .lt || (closed && above == .eq))

/-- The number of digits before the point, counted negatively for zeros after it: the least `k` with
the magnitude below `10 ^ k`. The binary logarithm gives it up to one. -/
def scale (s : Scaled) : Int :=
  let guess := Int.fdiv (((s.significand.log2 : Int) + s.exponent) * 30103) 100000
  if compareScaled 1 guess s.significand s.exponent == .gt then guess
  else if compareScaled 1 (guess + 1) s.significand s.exponent == .gt then guess + 1
  else guess + 2

/-- The magnitude over `10 ^ exponent`, rounded down. -/
def quotient (s : Scaled) (exponent : Int) : Nat :=
  ((s.significand * tenTo (-exponent).toNat) <<< s.exponent.toNat) /
    (tenTo exponent.toNat <<< (-s.exponent).toNat)

/-- The better of the two neighbours on the grid of `10 ^ exponent`, if one of them reads back. -/
def onGrid? (s : Scaled) (exponent : Int) : Option Decimal :=
  let lower : Decimal := ⟨quotient s exponent, exponent⟩
  let upper : Decimal := ⟨quotient s exponent + 1, exponent⟩
  match readsBack s lower, readsBack s upper with
  | true, true =>
    -- the midpoint decides, and itself goes up
    if compareScaled (2 * lower.digits + 1) exponent (2 * s.significand) s.exponent == .gt
    then some lower else some upper
  | true, false => some lower
  | false, true => some upper
  | false, false => none

/-- The exact value, written out. -/
def exact (s : Scaled) : Decimal :=
  ⟨(s.significand * Nat.pow 5 (-s.exponent).toNat) <<< s.exponent.toNat, min s.exponent 0⟩

/-- The whole number that the magnitude is, if it has at most 53 bits. Its neighbours are then no
more than one away, so a decimal that reads back and ends in a zero before the point is the number
itself. -/
def whole? (s : Scaled) : Option Nat :=
  if s.exponent ≤ 0 ∧ s.floor = s.ceil then some s.floor else none

/-- The shortest decimal that reads back to the magnitude, up to zeros at its end; the exact value
if seventeen digits should not do. Only a number that is not a short whole one has to be searched
for. -/
def shortest (s : Scaled) : Decimal :=
  match whole? s with
  | some n => ⟨n, 0⟩
  | none =>
    let k := scale s
    ((List.range 17).findSome? fun n : Nat ↦ onGrid? s (k - (n + 1 : Nat))).getD (exact s)

/-- The decimal without an exponent: zeros before or after the digits put the point in its place. -/
def positional (d : Decimal) : String :=
  let digits := Nat.toDigits 10 d.digits
  let places := (-d.exponent).toNat
  if places = 0 then String.ofList (digits ++ List.replicate d.exponent.toNat '0')
  else if digits.length ≤ places then
    String.ofList ('0' :: '.' :: (List.replicate (places - digits.length) '0' ++ digits))
  else
    let whole := digits.length - places
    String.ofList (digits.take whole ++ '.' :: digits.drop whole)

/-- The digits without the zeros at their end, which are moved into the exponent. -/
def strip : Nat → Decimal → Decimal
  | 0, d => d
  | n + 1, d =>
    if d.digits % 10 = 0 ∧ d.digits ≠ 0 then strip n ⟨d.digits / 10, d.exponent + 1⟩ else d

/-- The value of a run of digits. -/
def natOfDigits (digits : List Char) : Nat :=
  digits.foldl (fun n c ↦ 10 * n + (c.toNat - '0'.toNat)) 0

/-- The most digits that are read one by one. -/
def maxDigits : Nat := 800

/-- The decimal with the digits, which rounds to the same number even if it is cut. The midpoint of
two neighbouring numbers has fewer than `maxDigits` digits, so of the digits after these it matters
only whether there are others than zeros, and a single digit tells that. -/
def ofDigits (digits : List Char) (exponent : Int) : Decimal :=
  let significant := digits.dropWhile (· == '0')
  match significant.drop maxDigits with
  | [] => ⟨natOfDigits significant, exponent⟩
  | rest =>
    let mark := if rest.all (· == '0') then '0' else '1'
    ⟨natOfDigits (significant.take maxDigits ++ [mark]), exponent + (rest.length - 1)⟩

/-- The number nearest to the decimal. Far outside the range of numbers the answer is known without
computing the power of ten. -/
def toFloat (d : Decimal) : Float :=
  let top := d.exponent + ((Nat.toDigits 10 d.digits).length : Int)
  if d.digits = 0 ∨ top < -400 then 0.0
  else if 400 < top then Number.infinity
  else if 0 ≤ d.exponent then Float.ofScientific d.digits false d.exponent.toNat
  else Float.ofScientific d.digits true (-d.exponent).toNat

end Decimal

namespace Number

/-- How a number is written. -/
def text (x : Float) : String :=
  match parts x with
  | .nan => "NaN"
  | .infinite negative => if negative then "-inf" else "inf"
  | .finite s =>
    let magnitude :=
      if s.significand = 0 then "0" else (Decimal.strip 17 (Decimal.shortest s)).positional
    if s.negative then "-" ++ magnitude else magnitude

/-- An exponent that has reached this size takes no more digits. -/
def exponentLimit : Nat := 65536

/-- The size of an exponent. Digits after it has reached the limit are passed over. -/
def exponentOfDigits (digits : List Char) : Nat :=
  digits.foldl (fun n c ↦ if n < exponentLimit then 10 * n + (c.toNat - '0'.toNat) else n) 0

/-- The exponent that may follow the digits: a mark, an optional sign and at least one digit.
Nothing at all is the exponent zero. -/
def readExponent? : List Char → Option Int
  | [] => some 0
  | mark :: rest =>
    if mark != 'e' && mark != 'E' then none
    else
      let (negative, digits) := match rest with
        | '-' :: digits => (true, digits)
        | '+' :: digits => (false, digits)
        | digits => (false, digits)
      if digits.isEmpty || !digits.all Char.isDigit then none
      else
        let size := (exponentOfDigits digits : Int)
        some (if negative then -size else size)

/-- A magnitude in digits: digits before the point, digits after it, at least one of them, and an
exponent. -/
def readDigits? (text : List Char) : Option Float :=
  let whole := text.takeWhile Char.isDigit
  let (fraction, rest) := match text.dropWhile Char.isDigit with
    | '.' :: rest => (rest.takeWhile Char.isDigit, rest.dropWhile Char.isDigit)
    | rest => ([], rest)
  if whole.isEmpty && fraction.isEmpty then none
  else
    (readExponent? rest).map fun exponent ↦
      (Decimal.ofDigits (whole ++ fraction) (exponent - fraction.length)).toFloat

/-- A magnitude in words, in any case. -/
def readWord? (text : List Char) : Option Float :=
  match String.ofList (text.map Char.toLower) with
  | "inf" | "infinity" => some infinity
  | "nan" => some notANumber
  | _ => none

/-- Reads a magnitude. -/
def readMagnitude? (text : List Char) : Option Float :=
  (readDigits? text).or (readWord? text)

/-- Reads a number that fills the whole text. -/
def read? : List Char → Option Float
  | '-' :: rest => (readMagnitude? rest).map (- ·)
  | '+' :: rest => readMagnitude? rest
  | text => readMagnitude? text

end Number

end AliasScript
