import RazorViews.Json.Basic
import RazorViews.Number.Reader

/-!
Reading JSON documents.

The grammar is the standard one, with the names `NaN`, `Infinity` and `-Infinity` for the numbers
without numeral.  Comments, trailing commas, single quotes, control characters inside texts and
unpaired surrogates are refused, and so are numbers with too long a whole part.
-/

namespace RazorViews.Json

/-- White space between tokens. -/
def isGap (c : Char) : Bool := c == ' ' || c == '\t' || c == '\n' || c == '\r'

def skipGap (t : Text) : Text := t.dropWhile isGap

/-- The value of a hexadecimal digit. -/
def hexValue? (c : Char) : Option Nat :=
  if c.isDigit then some (c.toNat - '0'.toNat)
  else if 'a' ≤ c && c ≤ 'f' then some (c.toNat - 'a'.toNat + 10)
  else if 'A' ≤ c && c ≤ 'F' then some (c.toNat - 'A'.toNat + 10)
  else none

def hexUnit? (a b c d : Char) : Option Nat := do
  let ds ← [a, b, c, d].mapM hexValue?
  some (ds.foldl (fun v d => 16 * v + d) 0)

/-- The character behind a backslash, for the short escapes. -/
def shortEscape? : Char → Option Char
  | '"' => some '"'
  | '\\' => some '\\'
  | '/' => some '/'
  | 'b' => some '\x08'
  | 'f' => some '\x0c'
  | 'n' => some '\n'
  | 'r' => some '\r'
  | 't' => some '\t'
  | _ => none

/-- The first half of a surrogate pair. -/
def isHighSurrogate (n : Nat) : Bool := 0xD800 ≤ n && n < 0xDC00

/-- The second half of a surrogate pair. -/
def isLowSurrogate (n : Nat) : Bool := 0xDC00 ≤ n && n < 0xE000

/-- Reads a text behind its opening quote, and gives what follows the closing one. -/
def readText : Text → Option (Text × Text)
  | [] => none
  | '"' :: rest => some ([], rest)
  | '\\' :: 'u' :: a :: b :: c :: d :: rest => do
    let n ← hexUnit? a b c d
    if isHighSurrogate n then
      match rest with
      | '\\' :: 'u' :: e :: f :: g :: h :: more =>
        let m ← hexUnit? e f g h
        if isLowSurrogate m then
          let (t, after) ← readText more
          some (Char.ofNat (0x10000 + (n - 0xD800) * 0x400 + (m - 0xDC00)) :: t, after)
        else none
      | _ => none
    else if isLowSurrogate n then none
    else
      let (t, after) ← readText rest
      some (Char.ofNat n :: t, after)
  | '\\' :: c :: rest => do
    let d ← shortEscape? c
    let (t, after) ← readText rest
    some (d :: t, after)
  | c :: rest =>
    if c == '\\' || c.toNat < 0x20 then none
    else do
      let (t, after) ← readText rest
      some (c :: t, after)

/-- Divides a text behind the digits it begins with. -/
def splitDigits (t : Text) : Text × Text := (t.takeWhile Char.isDigit, t.dropWhile Char.isDigit)

/-- Reads the digits behind a decimal point, if there is one. -/
def readPlaces : Text → Option (Option Text × Text)
  | '.' :: rest =>
    let (digits, after) := splitDigits rest
    if digits.isEmpty then none else some (some digits, after)
  | t => some (none, t)

def readPower : Text → Option (Option Int × Text)
  | [] => some (none, [])
  | c :: rest =>
    if c == 'e' || c == 'E' then
      let (negative, body) := Number.splitSign rest
      let (digits, after) := splitDigits body
      (Number.digits? digits).map fun ds =>
        (some (Number.signed negative (Number.valueOnto 0 ds)), after)
    else some (none, c :: rest)

/-- Reads an unsigned number: no zero in front of other digits, and digits on both sides of a
point.  A number with a point or an exponent is a binary64 number.  The whole part must not be too
long, whatever stands behind it. -/
def readMagnitude (negative : Bool) (t : Text) : Option (Number × Text) := do
  let (whole, rest) := splitDigits t
  let front ← Number.digits? whole
  if front.head? == some 0 && front.length != 1 then none
  else if Number.isOverlong negative whole then none
  else
    let (places, rest) ← readPlaces rest
    let (power, rest) ← readPower rest
    if places.isNone && power.isNone then
      some (.whole (Number.signed negative (Number.valueOnto 0 front)), rest)
    else
      let places := places.getD []
      let digits := Number.valueOnto (Number.valueOnto 0 front) ((Number.digits? places).getD [])
      let x := Number.nearest digits (power.getD 0 - places.length)
      some (.real (if negative then -x else x), rest)

/-- The documents that are names, and the names. -/
def names : List (String × Json) :=
  [("null", null), ("true", bool true), ("false", bool false),
   ("NaN", number (.real (0.0 / 0.0))), ("Infinity", number (.real (1.0 / 0.0))),
   ("-Infinity", number (.real (-1.0 / 0.0)))]

def readScalar (t : Text) : Option (Json × Text) :=
  let name := names.findSome? fun (s, document) =>
    (Text.stripFront? s.toList t).map fun rest => (document, rest)
  name.or <|
    match t with
    | '-' :: rest => (readMagnitude true rest).map fun (n, after) => (number n, after)
    | t => (readMagnitude false t).map fun (n, after) => (number n, after)

mutual

/-- Reads a document at the front of a text. -/
def readValue : (fuel : Nat) → Text → Option (Json × Text)
  | 0, _ => none
  | fuel + 1, t =>
    match skipGap t with
    | '"' :: rest => (readText rest).map fun (s, after) => (text s, after)
    | '[' :: rest =>
      match skipGap rest with
      | ']' :: after => some (list [], after)
      | first => (readItems fuel first).map fun (items, after) => (list items, after)
    | '{' :: rest =>
      match skipGap rest with
      | '}' :: after => some (object [], after)
      | first => (readMembers fuel first).map fun (members, after) =>
          (object (members.foldl (fun kept (k, v) => put k v kept) []), after)
    | other => readScalar other

/-- Reads the items of a list up to its closing bracket. -/
def readItems : (fuel : Nat) → Text → Option (List Json × Text)
  | 0, _ => none
  | fuel + 1, t => do
    let (item, rest) ← readValue fuel t
    match skipGap rest with
    | ',' :: more =>
      let (items, after) ← readItems fuel more
      some (item :: items, after)
    | ']' :: after => some ([item], after)
    | _ => none

/-- Reads the members of an object up to its closing brace. -/
def readMembers : (fuel : Nat) → Text → Option (List (Text × Json) × Text)
  | 0, _ => none
  | fuel + 1, t => do
    match skipGap t with
    | '"' :: rest =>
      let (key, rest) ← readText rest
      match skipGap rest with
      | ':' :: rest =>
        let (value, rest) ← readValue fuel rest
        match skipGap rest with
        | ',' :: more =>
          let (members, after) ← readMembers fuel more
          some ((key, value) :: members, after)
        | '}' :: after => some ([(key, value)], after)
        | _ => none
      | _ => none
    | _ => none

end

/-- Reads a text that is one document.  Every nesting and every item costs a character, so twice
the length of the text bounds the depth of the recursion. -/
def read? (t : Text) : Option Json :=
  match readValue (2 * t.length + 2) t with
  | some (document, rest) => if (skipGap rest).isEmpty then some document else none
  | none => none

end RazorViews.Json
