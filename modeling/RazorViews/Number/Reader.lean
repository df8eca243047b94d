import RazorViews.Number.Basic
import RazorViews.Text.Word
import RazorViews.Text.Blank
import RazorViews.Text.Case

/-!
Numerals: the texts that stand for numbers.

Two grammars are read.  The *plain* grammar, of environment variables and of annotations, takes
digits of any script and single underscores between digits.  The *strict* grammar, of numbers in
data, takes ASCII digits only; there underscores are dropped beforehand where they are allowed.
-/

namespace RazorViews.Number

/-- White space around numerals: all but the information separators. -/
def isSpacing (c : Char) : Bool := Text.isBlank c && !(0x1C ≤ c.toNat && c.toNat ≤ 0x1F)

def trimSpacing (t : Text) : Text := Text.dropEndWhile isSpacing (t.dropWhile isSpacing)

/-- A sign, and the text behind it; no sign counts as plus. -/
def splitSign : Text → Bool × Text
  | '-' :: rest => (true, rest)
  | '+' :: rest => (false, rest)
  | t => (false, t)

def signed (negative : Bool) (n : Nat) : Int := if negative then -(n : Int) else n

/-- The value of digits, most significant first, on top of a value before them. -/
def valueOnto (value : Nat) (digits : List Nat) : Nat := digits.foldl (fun v d => 10 * v + d) value

/-- The most digits that an integer is read from, in either grammar, and printed with. -/
def maxDigits : Nat := 4300

/-! ## The plain grammar -/

/-- The text in ASCII digits and without underscores; none when an underscore does not stand
between two digits. -/
def joinDigits? : (afterDigit : Bool) → Text → Option Text
  | _, [] => some []
  | afterDigit, '_' :: rest =>
    if afterDigit && (rest.head?.any Text.isDecimal) then joinDigits? false rest else none
  | _, c :: rest =>
    match Text.digitValue? c with
    | some d => (joinDigits? true rest).map (Char.ofNat (d + '0'.toNat) :: ·)
    | none => (joinDigits? false rest).map (c :: ·)

/-- The values of a text of ASCII digits; none when it holds anything else or nothing. -/
def digits? (t : Text) : Option (List Nat) :=
  if t.isEmpty then none
  else t.mapM fun c => if c.isDigit then some (c.toNat - '0'.toNat) else none

def readInt? (t : Text) : Option Int := do
  let (negative, body) := splitSign (trimSpacing t)
  let digits ← digits? (← joinDigits? false body)
  if digits.length ≤ maxDigits then some (signed negative (valueOnto 0 digits)) else none

/-! ## The strict grammar -/

/-- The whole part of a number in data is too long to be read; a minus sign counts as a digit. -/
def isOverlong (negative : Bool) (digits : Text) : Bool :=
  maxDigits < digits.length + negative.toNat

/-! ## Decimal fractions -/

/-- The binary64 number nearest to `digits × 10 ^ exponent`. -/
def nearest (digits : Nat) (exponent : Int) : Float :=
  let size : Int := (Nat.toDigits 10 digits).length + exponent
  if digits == 0 || size < -400 then 0.0
  else if 400 < size then 1.0 / 0.0
  else if 0 ≤ exponent then Float.ofScientific digits false exponent.toNat
  else Float.ofScientific digits true (-exponent).toNat

/-- Reads what may follow the digits of a fraction: nothing, or an exponent. -/
def readExponent? : Text → Option Int
  | [] => some 0
  | c :: rest =>
    if c == 'e' || c == 'E' then
      let (negative, body) := splitSign rest
      (digits? body).map fun ds => signed negative (valueOnto 0 ds)
    else none

/-- Reads an unsigned decimal fraction: digits, a point and digits, or a point with digits on one
side of it, and an exponent if any. -/
def readFraction? (t : Text) : Option Float := do
  let front := t.takeWhile Char.isDigit
  let (back, rest) := match t.dropWhile Char.isDigit with
    | '.' :: more => (more.takeWhile Char.isDigit, more.dropWhile Char.isDigit)
    | more => ([], more)
  let digits ← digits? (front ++ back)
  let exponent ← readExponent? rest
  some (nearest (valueOnto 0 digits) (exponent - back.length))

/-- Reads a signed decimal fraction, or the name of an infinity or of no number. -/
def readReal? (t : Text) : Option Float :=
  let (negative, body) := splitSign t
  let name := Text.lower body
  let magnitude :=
    if body.all Char.isAlpha && (name == "inf".toList || name == "infinity".toList) then
      some (1.0 / 0.0)
    else if body.all Char.isAlpha && name == "nan".toList then some (0.0 / 0.0)
    else readFraction? body
  magnitude.map fun x => if negative then -x else x

def readFloat? (t : Text) : Option Float := do readReal? (← joinDigits? false (trimSpacing t))

end RazorViews.Number
