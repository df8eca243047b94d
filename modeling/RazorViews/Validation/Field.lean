import RazorViews.Json.Basic
import RazorViews.Number.Reader
import RazorViews.Validation.Basic

/-!
Checks for the fields of records that are given as JSON documents.

The checks are lenient where nothing is lost: a number may be written in a text, a whole number may
come as a number with a zero fraction, and a flag as one of the usual words.  A text is never made
from anything else.
-/

namespace RazorViews.Field

/-! ## Scalars -/

def text : Json → Checked Text
  | .text t => .good t
  | _ => .fault .notText

def nonEmptyText (document : Json) : Checked Text :=
  (text document).andThen fun t => if t.isEmpty then .fault .textTooShort else .good t

/-- Single underscores, with something on both sides of each, taken out; none if there is nothing
to take out or an underscore stands elsewhere. -/
def dropUnderscores? (t : Text) : Option Text :=
  let atEnd := t.head? == some '_' || t.getLast? == some '_'
  if atEnd || t.holds ['_', '_'] || !t.contains '_' then none
  else some (t.filter (· != '_'))

/-- The digits from the first one that counts; the last zero is kept where nothing else would
precede the point or the end. -/
def dropLeadingZeros? : Text → Option Text
  | [] => none
  | c :: rest =>
    if c == '0' then
      match rest with
      | [] => some [c]
      | d :: _ =>
        if d == '.' then some (c :: rest)
        else if d == '_' || d.isDigit then dropLeadingBehindZero rest
        else none
    else if c.isDigit then some (c :: rest)
    else none
where
  /-- The same behind a leading zero, where underscores may stand too. -/
  dropLeadingBehindZero : Text → Option Text
    | [] => none
    | [c] => some [c]
    | c :: d :: rest =>
      if c == '0' || c == '_' then
        if d == '.' then some (c :: d :: rest) else dropLeadingBehindZero (d :: rest)
      else if c.isDigit then some (c :: d :: rest)
      else none

/-- The text without a point that only zeros follow. -/
def dropZeroFraction (t : Text) : Text :=
  match t.dropWhile (· != '.') with
  | '.' :: places => if places.all (· == '0') then t.takeWhile (· != '.') else t
  | _ => t

/-- Reads a whole number from a text: a sign, digits with single underscores between them, and a
zero fraction.  Too many digits are refused before anything behind them is looked at. -/
def readWhole (t : Text) : Checked Int :=
  let (negative, body) := Number.splitSign (Number.trimSpacing t)
  match (dropLeadingZeros? body).map dropZeroFraction with
  | none => .fault .unreadableWhole
  | some body =>
    let plain := (dropUnderscores? body).getD body
    if Number.isOverlong negative (plain.takeWhile Char.isDigit) then .fault .oversizedWhole
    else
      match Number.digits? plain with
      | some digits => .good (Number.signed negative (Number.valueOnto 0 digits))
      | none => .fault .unreadableWhole

def whole : Json → Checked Int
  | .number (.whole n) => .good n
  | .number (.real x) =>
    match Number.shape x with
    | .finite .. =>
      match Number.integral? x with
      | some n => if n.natAbs < 0x8000000000000000 then .good n else .fault .oversizedWhole
      | none => .fault .fractionalWhole
    | _ => .fault .infiniteWhole
  | .bool b => .good (if b then 1 else 0)
  | .text t => readWhole t
  | _ => .fault .notWhole

/-- A whole number that is at least `least`. -/
def wholeFrom (least : Nat) (document : Json) : Checked Nat :=
  (whole document).andThen fun n =>
    if n < (least : Int) then .fault .tooSmall else .good n.toNat

def real : Json → Checked Float
  | .number n => .good n.toFloat
  | .bool b => .good (if b then 1.0 else 0.0)
  | .text t =>
    let direct := Number.readReal? (Number.trimSpacing t)
    match direct.or ((dropUnderscores? t).bind Number.readReal?) with
    | some x => .good x
    | none => .fault .unreadableReal
  | _ => .fault .notReal

def positiveReal (document : Json) : Checked Float :=
  (real document).andThen fun x => if 0.0 < x then .good x else .fault .notAboveBound

/-- Words for yes and for no. -/
def flagWords : List (String × Bool) :=
  [("0", false), ("off", false), ("f", false), ("false", false), ("n", false), ("no", false),
   ("1", true), ("on", true), ("t", true), ("true", true), ("y", true), ("yes", true)]

def flag : Json → Checked Bool
  | .bool b => .good b
  | .number n =>
    if n.same (.whole 0) then .good false
    else if n.same (.whole 1) then .good true
    else match n with
      | .whole _ => .fault .unreadableFlag
      | .real x => .fault (if (Number.integral? x).isSome then .unreadableFlag else .notFlag)
  | .text t =>
    match flagWords.lookup (String.ofList (t.map Char.toLower)) with
    | some b => .good b
    | none => .fault .unreadableFlag
  | _ => .fault .notFlag

/-- One of several named choices. -/
def choice {α : Type} (ofName? : Text → Option α) : Json → Checked α
  | .text t =>
    match ofName? t with
    | some a => .good a
    | none => .fault .notAChoice
  | _ => .fault .notAChoice

/-! ## Compound fields -/

/-- A value that may be null. -/
def optional {α : Type} (check : Json → Checked α) : Json → Checked (Option α)
  | .null => .good none
  | document => (check document).map some

def list {α : Type} (check : Json → Checked α) : Json → Checked (List α)
  | .list items => .each check 0 items
  | _ => .fault .notList

def tuple {α : Type} (check : Json → Checked α) : Json → Checked (List α)
  | .list items => .each check 0 items
  | _ => .fault .notTuple

/-! ## Records -/

/-- The members of a record. -/
def members (document : Json) : Checked (List (Text × Json)) :=
  match document with
  | .object members => .good members
  | _ => .fault .notARecord

def required {α : Type} (given : List (Text × Json)) (key : String) (check : Json → Checked α) :
    Checked α :=
  match given.lookup key.toList with
  | some document => (check document).under key.toList
  | none => (Checked.fault .missing).under key.toList

/-- A field with a value of its own when it is not given. -/
def defaulting {α : Type} (given : List (Text × Json)) (key : String) (value : α)
    (check : Json → Checked α) : Checked α :=
  match given.lookup key.toList with
  | some document => (check document).under key.toList
  | none => .good value

end RazorViews.Field
