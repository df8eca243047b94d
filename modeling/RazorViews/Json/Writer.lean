import RazorViews.Json.Basic
import RazorViews.Number.Shortest

/-!
Writing JSON documents over several lines.

Nested items stand two columns further in than the list or object that holds them; an empty list or
object stays on its line.  Only quotes, backslashes and control characters are escaped, and a
number without numeral is written `null`.
-/

namespace RazorViews.Json

def hexDigit (n : Nat) : Char := (Nat.toDigits 16 n).headD '0'

def escapeChar (c : Char) : Text :=
  match c with
  | '"' => ['\\', '"']
  | '\\' => ['\\', '\\']
  | '\x08' => ['\\', 'b']
  | '\x0c' => ['\\', 'f']
  | '\n' => ['\\', 'n']
  | '\r' => ['\\', 'r']
  | '\t' => ['\\', 't']
  | c =>
    if c.toNat < 0x20 then
      "\\u00".toList ++ [hexDigit (c.toNat / 16), hexDigit (c.toNat % 16)]
    else [c]

def writeText (t : Text) : Text := '"' :: t.flatMap escapeChar ++ ['"']

/-- A number; one without numeral is written `null`. -/
def writeNumber : Number → Text
  | .whole n => Text.ofInt n
  | .real x =>
    match Number.shape x with
    | .finite .. => Number.writeFloat .settings x
    | _ => "null".toList

/-- A line feed, and the columns in front of an item at some depth. -/
def newLine (depth : Nat) : Text := '\n' :: List.replicate (2 * depth) ' '

/-- Parts on lines of their own between brackets; without parts, the brackets alone. -/
def writeParts (depth : Nat) (opening closing : Char) (parts : List Text) : Text :=
  if parts.isEmpty then [opening, closing]
  else
    opening :: Text.join [','] (parts.map fun part => newLine (depth + 1) ++ part) ++
      newLine depth ++ [closing]

mutual

/-- Writes a document whose own line is at some depth. -/
def writeAt (depth : Nat) : Json → Text
  | null => "null".toList
  | bool b => if b then "true".toList else "false".toList
  | number n => writeNumber n
  | text t => writeText t
  | list items => writeParts depth '[' ']' (writeItems (depth + 1) items)
  | object members => writeParts depth '\x7b' '\x7d' (writeMembers (depth + 1) members)

def writeItems (depth : Nat) : List Json → List Text
  | [] => []
  | item :: items => writeAt depth item :: writeItems depth items

def writeMembers (depth : Nat) : List (Text × Json) → List Text
  | [] => []
  | (key, value) :: members =>
    (writeText key ++ ':' :: ' ' :: writeAt depth value) :: writeMembers depth members

end

def write (document : Json) : Text := writeAt 0 document

end RazorViews.Json
