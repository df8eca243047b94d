import RazorViews.Text.Basic

/-!
White space, and trimming it.

Besides the ASCII blanks and line breaks, the four information separators U+001C to U+001F, the
next-line control and the wide, thin and no-break spaces are blank; the zero-width space is not.
-/

namespace RazorViews.Text

/-- The blank characters. -/
def blankSpans : List (Nat × Nat) :=
  [(0x9, 0xD), (0x1C, 0x20), (0x85, 0x85), (0xA0, 0xA0), (0x1680, 0x1680), (0x2000, 0x200A),
   (0x2028, 0x2029), (0x202F, 0x202F), (0x205F, 0x205F), (0x3000, 0x3000)]

def isBlank (c : Char) : Bool := inSpans blankSpans c

def trimLeft (t : Text) : Text := t.dropWhile isBlank

def trimRight (t : Text) : Text := (t.reverse.dropWhile isBlank).reverse

def trim (t : Text) : Text := trimRight (trimLeft t)

end RazorViews.Text
