import RazorViews.Text.Printable

/-!
Texts in quotes, as messages show them.

Single quotes are used unless the text holds some and no double quotes.  The quote in use, the
backslash and every character that does not show as itself are escaped.
-/

namespace RazorViews.Quoted

/-- A number in hexadecimal digits, filled up with zeros. -/
def hex (width n : Nat) : Text :=
  let digits := Nat.toDigits 16 n
  List.replicate (width - digits.length) '0' ++ digits

/-- A character inside the quotes. -/
def escape (quote c : Char) : Text :=
  if c == quote || c == '\\' then ['\\', c]
  else if c == '\t' then ['\\', 't']
  else if c == '\n' then ['\\', 'n']
  else if c == '\r' then ['\\', 'r']
  else if Text.isPrintable c then [c]
  else if c.toNat < 0x100 then '\\' :: 'x' :: hex 2 c.toNat
  else if c.toNat < 0x10000 then '\\' :: 'u' :: hex 4 c.toNat
  else '\\' :: 'U' :: hex 8 c.toNat

/-- The quote for a text. -/
def markFor (t : Text) : Char := if t.contains '\'' && !t.contains '"' then '"' else '\''

def encode (t : Text) : Text := markFor t :: t.flatMap (escape (markFor t)) ++ [markFor t]

end RazorViews.Quoted
