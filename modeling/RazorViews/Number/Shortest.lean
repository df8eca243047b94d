import RazorViews.Number.Basic

/-!
The shortest decimal that reads back as a binary64 number, and the styles it is written in.

A finite binary64 number stands for an interval of reals, those that round to it.  Its shortest
text has the fewest digits of all decimals in that interval and, among those, the value nearest
the number.  For each digit count only the two neighbours of the number on the grid of decimals
with so many digits have to be tried.
-/

namespace RazorViews.Number

/-- A positive fraction. -/
structure Ratio where
  num : Nat
  den : Nat

def Ratio.lt (a b : Ratio) : Bool := a.num * b.den < b.num * a.den

def Ratio.same (a b : Ratio) : Bool := a.num * b.den == b.num * a.den

/-- `n × base ^ exponent`. -/
def Ratio.scaled (n base : Nat) (exponent : Int) : Ratio :=
  if 0 ≤ exponent then ⟨n * power base exponent.toNat, 1⟩ else ⟨n, power base (-exponent).toNat⟩

/-- The reals that round to a number: the ends, and whether they belong to it. -/
structure Interval where
  low : Ratio
  high : Ratio
  closed : Bool

def Interval.contains (i : Interval) (a : Ratio) : Bool :=
  (i.low.lt a && a.lt i.high) || (i.closed && (i.low.same a || i.high.same a))

/-- The reals that round to `significand × 2 ^ exponent`.  Below a power of two the neighbours
stand twice as close. -/
def rounding (significand : Nat) (exponent : Int) : Interval :=
  let narrow := significand == 0x10000000000000 && exponent != -1074
  { low := if narrow then .scaled (4 * significand - 1) 2 (exponent - 2)
      else .scaled (2 * significand - 1) 2 (exponent - 1)
    high := .scaled (2 * significand + 1) 2 (exponent - 1)
    closed := significand % 2 == 0 }

/-- The power of ten at or below a positive fraction: the largest `e` with `10 ^ e ≤ a`. -/
def magnitude (a : Ratio) : Int :=
  if a.den ≤ a.num then
    ((Nat.toDigits 10 (a.num / a.den)).length : Int) - 1
  else
    -below 400 1
where
  /-- How many places behind the point the first digit stands, tried from `n` on. -/
  below : Nat → Nat → Int
    | 0, n => n
    | fuel + 1, n => if a.den ≤ a.num * power 10 n then n else below fuel (n + 1)

/-- A decimal: `digits × 10 ^ exponent`. -/
structure Decimal where
  digits : Nat
  exponent : Int
deriving DecidableEq, Repr

def Decimal.value (d : Decimal) : Ratio := .scaled d.digits 10 d.exponent

/-- The neighbours of `a` on the grid of decimals that end at `exponent`, below and above. -/
def neighbours (a : Ratio) (exponent : Int) : Decimal × Decimal :=
  let shifted : Ratio :=
    if 0 ≤ exponent then ⟨a.num, a.den * power 10 exponent.toNat⟩
    else ⟨a.num * power 10 (-exponent).toNat, a.den⟩
  let floor := shifted.num / shifted.den
  (⟨floor, exponent⟩, ⟨floor + 1, exponent⟩)

/-- The better of two neighbours that both lie in the interval: the nearer, and of two equally near
the one with an even last digit. -/
def nearer (a : Ratio) (below above : Decimal) : Decimal :=
  let sum : Ratio := .scaled (below.digits + above.digits) 10 below.exponent
  let twice : Ratio := ⟨2 * a.num, a.den⟩
  if twice.lt sum then below
  else if sum.lt twice then above
  else if below.digits % 2 == 0 then below
  else above

/-- The best decimal that ends at `exponent` and lies in the interval. -/
def onGrid? (i : Interval) (a : Ratio) (exponent : Int) : Option Decimal :=
  let (below, above) := neighbours a exponent
  let belowFits := below.digits != 0 && i.contains below.value
  match belowFits, i.contains above.value with
  | true, true => some (nearer a below above)
  | true, false => some below
  | false, true => some above
  | false, false => none

def trimZeros : Nat → Decimal → Decimal
  | 0, d => d
  | fuel + 1, d =>
    if d.digits % 10 == 0 then trimZeros fuel ⟨d.digits / 10, d.exponent + 1⟩ else d

/-- The shortest decimal that rounds to `significand × 2 ^ exponent`, which is not zero.  Seventeen
digits always suffice. -/
def shortest (significand : Nat) (exponent : Int) : Decimal :=
  let a := Ratio.scaled significand 2 exponent
  let i := rounding significand exponent
  let top := magnitude a
  let found := (List.range 17).findSome? fun n : Nat => onGrid? i a (top - (n : Int))
  trimZeros 20 (found.getD (neighbours a (top - 16)).1)

/-! ## Styles -/

/-- How a binary64 number is written. -/
structure Style where
  /-- The least power of ten of a first digit that is still written positionally. -/
  least : Int
  /-- The greatest power of ten of a first digit that is still written positionally. -/
  greatest : Int
  /-- A positive exponent carries a plus sign. -/
  plus : Bool
  /-- The least number of digits of an exponent. -/
  exponentDigits : Nat

/-- The style of answers and pages: `0.0001`, `1e-05`, `1e+16`. -/
def Style.plain : Style := ⟨-4, 15, true, 2⟩

/-- The style of settings files: `0.00001`, `1e-6`, `1e16`. -/
def Style.settings : Style := ⟨-5, 15, false, 1⟩

/-- A positive decimal in positional notation, with at least one digit behind the point. -/
def Decimal.positional (d : Decimal) : Text :=
  let digits := Text.ofNat d.digits
  if 0 ≤ d.exponent then
    digits ++ List.replicate d.exponent.toNat '0' ++ ['.', '0']
  else
    let places := (-d.exponent).toNat
    if places < digits.length then
      digits.take (digits.length - places) ++ '.' :: digits.drop (digits.length - places)
    else
      '0' :: '.' :: (List.replicate (places - digits.length) '0' ++ digits)

/-- A positive decimal in scientific notation. -/
def Decimal.scientific (style : Style) (d : Decimal) : Text :=
  let digits := Text.ofNat d.digits
  let power : Int := d.exponent + digits.length - 1
  let mantissa := match digits with
    | [] => []
    | [c] => [c]
    | c :: more => c :: '.' :: more
  let sign := if power < 0 then ['-'] else if style.plus then ['+'] else []
  let places := Text.ofNat power.natAbs
  mantissa ++ 'e' :: sign ++ List.replicate (style.exponentDigits - places.length) '0' ++ places

/-- A positive decimal in a style. -/
def Decimal.write (style : Style) (d : Decimal) : Text :=
  let power : Int := d.exponent + (Text.ofNat d.digits).length - 1
  if style.least ≤ power && power ≤ style.greatest then d.positional else d.scientific style

/-- A binary64 number in a style. -/
def writeFloat (style : Style) (x : Float) : Text :=
  match shape x with
  | .notANumber => "nan".toList
  | .infinite negative => if negative then "-inf".toList else "inf".toList
  | .finite negative significand exponent =>
    let sign := if negative then ['-'] else []
    if significand == 0 then sign ++ "0.0".toList
    else sign ++ (shortest significand exponent).write style

end RazorViews.Number
