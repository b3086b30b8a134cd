import PatentFilter.Decimal.Shortest

/-!
# Written decimals

Floating-point numbers are written positionally, with at least one digit after the point, or in
short form with a power of ten; a format says which. Reading takes an optional sign, digits with an optional point, and an optional
exponent.
-/

namespace PatentFilter.Decimal

def digitList (n : Nat) : List Char :=
  Nat.toDigits 10 n

/-- Positional form; a whole number keeps `.0`. -/
def Digits.positional (d : Digits) : List Char :=
  let cs := digitList d.digits
  if 0 ≤ d.exponent then
    cs ++ List.replicate d.exponent.toNat '0' ++ ['.', '0']
  else
    let places := (-d.exponent).toNat
    let padded := List.replicate (places + 1 - cs.length) '0' ++ cs
    padded.take (padded.length - places) ++ '.' :: padded.drop (padded.length - places)

/-- The power of ten that the first digit counts for. -/
def Digits.order (d : Digits) : Int :=
  (digitList d.digits).length - 1 + d.exponent

/-- Short form: one digit before the point, none after it if there is no other, and the power of
ten with its sign. -/
def Digits.scientific (d : Digits) : List Char :=
  let cs := digitList d.digits
  let fraction := if cs.length = 1 then [] else '.' :: cs.drop 1
  let sign := if d.order < 0 then '-' else '+'
  cs.take 1 ++ fraction ++ 'e' :: sign :: digitList d.order.natAbs

/-- How floating-point numbers are written. -/
structure Format where
  tie : Tie
  /-- Whether numbers whose first digit counts for this power of ten are written positionally. -/
  isPositional : Int → Bool

namespace Format

/-- All numbers are written positionally, whatever their size. -/
def positional : Format := ⟨.larger, fun _ => true⟩

/-- Numbers with many zeros before or after their digits are written in short form. -/
def compact : Format := ⟨.even, fun order => -5 ≤ order && order ≤ 15⟩

def digits (f : Format) (d : Digits) : List Char :=
  if f.isPositional d.order then d.positional else d.scientific

/-- The written form of any floating-point value. Zero keeps its sign. -/
def write (f : Format) (x : Float) : String :=
  if x.isNaN then "NaN"
  else
    let sign := if x.toBits >>> 63 == 1 then "-" else ""
    if x.isInf then sign ++ "inf"
    else sign ++ String.ofList (f.digits ((Binary.ofBits x.toBits).shortest f.tie))

end Format

def digitsValue (cs : List Char) : Nat :=
  cs.foldl (fun n c => 10 * n + (c.toNat - '0'.toNat)) 0

/-- `digits * 10 ^ exponent`, correctly rounded. Beyond the exponents of finite values the answer
is known without the power. -/
def round (digits : Nat) (exponent : Int) : Float :=
  let size : Int := (digitList digits).length + exponent
  if digits = 0 ∨ size < -400 then 0.0
  else if 400 < size then 1.0 / 0.0
  else Float.ofScientific digits (exponent < 0) exponent.natAbs

/-- The exponent part: nothing, or a mark, an optional sign and at least one digit. -/
def readExponent? : List Char → Option Int
  | [] => some 0
  | e :: cs =>
    if e == 'e' || e == 'E' then
      let (negative, ds) := match cs with
        | '-' :: ds => (true, ds)
        | '+' :: ds => (false, ds)
        | ds => (false, ds)
      if ds.isEmpty || !ds.all Char.isDigit then none
      else some (if negative then -(digitsValue ds : Int) else digitsValue ds)
    else none

/-- An unsigned decimal: at least one digit, before or after the point. -/
def readUnsigned? (cs : List Char) : Option Float :=
  let whole := cs.takeWhile Char.isDigit
  let (fraction, rest) := match cs.dropWhile Char.isDigit with
    | '.' :: cs => (cs.takeWhile Char.isDigit, cs.dropWhile Char.isDigit)
    | cs => ([], cs)
  if whole.isEmpty && fraction.isEmpty then none
  else (readExponent? rest).map fun e =>
    round (digitsValue (whole ++ fraction)) (e - fraction.length)

def read? : List Char → Option Float
  | '-' :: cs => (readUnsigned? cs).map fun x => -x
  | '+' :: cs => readUnsigned? cs
  | cs => readUnsigned? cs

end PatentFilter.Decimal
