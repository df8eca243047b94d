import RazorViews.Text.Basic

/-!
Numbers as clocks, settings files and page contexts give them: whole numbers of any size, and
binary64 numbers.

The two kinds mix freely.  Comparison is by exact value; a sum or difference is exact between
whole numbers and rounded to binary64 as soon as one side is.
-/

namespace RazorViews

/-- A whole number or a binary64 number. -/
inductive Number where
  | whole (n : Int)
  | real (x : Float)

namespace Number

instance : Inhabited Number := ⟨whole 0⟩

def power (base exponent : Nat) : Nat := Nat.pow base exponent

/-- What the bits of a binary64 number stand for. -/
inductive Shape where
  /-- The number `± significand × 2 ^ exponent`. -/
  | finite (negative : Bool) (significand : Nat) (exponent : Int)
  | infinite (negative : Bool)
  | notANumber
deriving DecidableEq, Repr

/-- Takes a binary64 number apart. -/
def shape (x : Float) : Shape :=
  let bits : Nat := x.toBits.toNat
  let negative := bits / 0x8000000000000000 == 1
  let exponent : Nat := bits / 0x10000000000000 % 0x800
  let fraction : Nat := bits % 0x10000000000000
  if exponent == 0x7FF then
    if fraction == 0 then .infinite negative else .notANumber
  else if exponent == 0 then
    .finite negative fraction (-1074)
  else
    .finite negative (0x10000000000000 + fraction) (exponent - 1075)

def toFloat : Number → Float
  | whole n => if n < 0 then -(Float.ofScientific n.natAbs false 0)
      else Float.ofScientific n.natAbs false 0
  | real x => x

/-- The whole number that a binary64 number is, if it is one. -/
def integral? (x : Float) : Option Int :=
  match shape x with
  | .finite negative significand exponent =>
    let magnitude :=
      if 0 ≤ exponent then some (significand * power 2 exponent.toNat)
      else if significand % power 2 (-exponent).toNat == 0 then
        some (significand / power 2 (-exponent).toNat)
      else none
    magnitude.map fun m => if negative then -(m : Int) else m
  | _ => none

def wholeBelow (n : Int) (x : Float) : Bool :=
  match shape x with
  | .finite negative significand exponent =>
    let signed : Int := if negative then -(significand : Int) else significand
    if 0 ≤ exponent then n < signed * power 2 exponent.toNat
    else n * power 2 (-exponent).toNat < signed
  | .infinite negative => !negative
  | .notANumber => false

def wholeAbove (n : Int) (x : Float) : Bool :=
  match shape x with
  | .finite negative significand exponent =>
    let signed : Int := if negative then -(significand : Int) else significand
    if 0 ≤ exponent then signed * power 2 exponent.toNat < n
    else signed < n * power 2 (-exponent).toNat
  | .infinite negative => negative
  | .notANumber => false

/-- Order by value. -/
def lt : Number → Number → Bool
  | whole m, whole n => m < n
  | whole m, real y => wholeBelow m y
  | real x, whole n => wholeAbove n x
  | real x, real y => x < y

def same : Number → Number → Bool
  | whole m, whole n => m == n
  | whole m, real y => integral? y == some m
  | real x, whole n => integral? x == some n
  | real x, real y => x == y

def isZero (a : Number) : Bool := a.same (whole 0)

/-- Sum.  Beside a real number a whole one beyond binary64 counts as infinite; the readings of clocks
and the times of files, of which sums and differences are taken, are no such numbers. -/
def add : Number → Number → Number
  | whole m, whole n => whole (m + n)
  | a, b => real (a.toFloat + b.toFloat)

/-- Difference, with the same proviso. -/
def sub : Number → Number → Number
  | whole m, whole n => whole (m - n)
  | a, b => real (a.toFloat - b.toFloat)

end Number

end RazorViews
