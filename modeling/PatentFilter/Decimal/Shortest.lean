/-!
# The fewest digits that read back

A finite binary value is decoded into `mantissa * 2 ^ exponent`, and the reals that round to it
form an interval. For one digit, two digits and so on, the two neighbours of the value on that
decimal grid are tested against the interval; the first grid with a hit wins, and
of two hits the nearer. All arithmetic is on exact integers.
-/

namespace PatentFilter.Decimal

/-- A finite value `mantissa * 2 ^ exponent`, its sign apart. -/
structure Binary where
  mantissa : Nat
  exponent : Int
  /-- The gap to the value below is half the gap to the value above. -/
  narrowBelow : Bool
  deriving Repr, DecidableEq

/-- The bits must not be those of an infinity or of no number. -/
def Binary.ofBits (bits : UInt64) : Binary :=
  let e := ((bits >>> 52) &&& 0x7ff).toNat
  let f := (bits &&& 0xfffffffffffff).toNat
  if e = 0 then ⟨f, -1074, false⟩ else ⟨0x10000000000000 + f, (e : Int) - 1075, f = 0 ∧ e > 1⟩

/-- The number `digits * 10 ^ exponent`. -/
structure Digits where
  digits : Nat
  exponent : Int
  deriving Repr, DecidableEq

/-- The power of two with the given exponent, or one if that is negative. -/
def twoTo (e : Int) : Nat := Nat.pow 2 e.toNat

def tenTo (e : Int) : Nat := Nat.pow 10 e.toNat

/-- The order of `a * 10 ^ s` and `b * 2 ^ t`. -/
def compareScaled (a : Nat) (s : Int) (b : Nat) (t : Int) : Ordering :=
  compare (a * tenTo s * twoTo (-t)) (b * twoTo t * tenTo (-s))

/-- A decimal reads back when it lies between the midpoints to the two neighbours; the midpoints
themselves count exactly when the mantissa is even. -/
def Binary.readsBack (x : Binary) (d : Digits) : Bool :=
  let low := compareScaled d.digits d.exponent
    (4 * x.mantissa - if x.narrowBelow then 1 else 2) (x.exponent - 2)
  let high := compareScaled d.digits d.exponent (4 * x.mantissa + 2) (x.exponent - 2)
  (low == .gt && high == .lt) || (x.mantissa % 2 == 0 && (low == .eq || high == .eq))

/-- The number of digits before the decimal point, negative for zeros after it. -/
def Binary.magnitude (x : Binary) : Int :=
  let guess := (((x.mantissa.log2 : Int) + x.exponent) * 30103).fdiv 100000
  let near := [guess - 1, guess, guess + 1, guess + 2, guess + 3]
  (near.find? fun k => compareScaled 1 k x.mantissa x.exponent == .gt).getD guess

/-- The whole multiples of `10 ^ s` in the value. -/
def Binary.floorAt (x : Binary) (s : Int) : Nat :=
  (x.mantissa * twoTo x.exponent * tenTo (-s)) / (twoTo (-x.exponent) * tenTo s)

/-- Which of two equally near decimals is taken. -/
inductive Tie where
  | larger
  | even
  deriving DecidableEq, Repr

/-- Whether the lower of two decimals is taken, given its digits and the order of the midpoint and
the value. -/
def Tie.takesLower (tie : Tie) (digits : Nat) : Ordering → Bool
  | .gt => true
  | .eq => tie == .even && digits % 2 == 0
  | .lt => false

/-- The nearer of the two neighbours on the grid of `10 ^ s`, if one of them reads back. -/
def Binary.onGrid? (x : Binary) (tie : Tie) (s : Int) : Option Digits :=
  let n := x.floorAt s
  let below : Digits := ⟨n, s⟩
  let above : Digits := ⟨n + 1, s⟩
  match x.readsBack below, x.readsBack above with
  | false, false => none
  | true, false => some below
  | false, true => some above
  | true, true =>
    let order := compareScaled (2 * n + 1) s (2 * x.mantissa) x.exponent
    if tie.takesLower n order then some below else some above

/-- Trailing zeros of the digits move into the exponent. -/
def Digits.strip (d : Digits) : Digits :=
  if _h : 0 < d.digits ∧ d.digits % 10 = 0 then
    Digits.strip ⟨d.digits / 10, d.exponent + 1⟩
  else d
termination_by d.digits
decreasing_by omega

/-- Seventeen digits always suffice; were they not to, the exact value is taken. -/
def Binary.shortest (x : Binary) (tie : Tie) : Digits :=
  if x.mantissa = 0 then ⟨0, 0⟩
  else
    let k := x.magnitude
    let grids := (List.range 17).map fun (i : Nat) => k - 1 - (i : Int)
    let exact : Digits :=
      ⟨x.mantissa * twoTo x.exponent * Nat.pow 5 (-x.exponent).toNat, min x.exponent 0⟩
    ((grids.findSome? (x.onGrid? tie)).getD exact).strip

end PatentFilter.Decimal
