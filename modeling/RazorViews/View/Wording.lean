import RazorViews.Text.Blank
import RazorViews.Text.Case

/-!
Names as readers see them: plurals, and titles made of the words of an identifier.
-/

namespace RazorViews.Wording

def isVowel (c : Char) : Bool := "aeiou".toList.contains c

/-- Endings in small letters that take `es`. -/
def hissing : List String := ["s", "x", "z", "ch", "sh"]

/-- The small letters of a name end with a consonant and `y`, and more than that `y` is there. -/
def endsWithConsonantY (name : Text) : Bool :=
  match (Text.lower name).reverse with
  | 'y' :: before :: _ => 1 < name.length && !isVowel before
  | _ => false

/-- The plural of a name: a `y` behind a consonant becomes `ies`, a hissing ending gets `es`, any
other `s`. -/
def plural (name : Text) : Text :=
  if name.isEmpty then []
  else if endsWithConsonantY name then name.dropLast ++ "ies".toList
  else if hissing.any fun ending => (Text.lower name).endsWith ending.toList then
    name ++ "es".toList
  else name ++ "s".toList

def capitalize : Text → Text
  | [] => []
  | c :: rest => Text.upper [c] ++ rest

/-! ## Titles -/

def isPlainCapital (c : Char) : Bool := 'A' ≤ c && c ≤ 'Z'

def isPlainSmall (c : Char) : Bool := 'a' ≤ c && c ≤ 'z'

def isPlainSmallOrDigit (c : Char) : Bool := isPlainSmall c || ('0' ≤ c && c ≤ '9')

/-- A word begins between two neighbours: a capital behind a small letter or digit, or the capital
of a new word, told by the small letter behind it, behind the capitals of another. -/
def beginsWord (before c : Char) (rest : Text) : Bool :=
  isPlainCapital c &&
    (isPlainSmallOrDigit before || isPlainCapital before && rest.head?.any isPlainSmall)

/-- The text behind a character, with a space in front of every character that begins a word. -/
def spaceBehind (before : Char) : Text → Text
  | [] => []
  | c :: rest =>
    if beginsWord before c rest then ' ' :: c :: spaceBehind c rest else c :: spaceBehind c rest

/-- A text with a space in front of every character that begins a word within it. -/
def spaceWords : Text → Text
  | [] => []
  | c :: rest => c :: spaceBehind c rest

/-- A character between words. -/
def isGap (c : Char) : Bool := Text.isBlank c || c == '_' || c == '-'

/-- A word in a title: abbreviations stay in capitals, all else is in small letters. -/
def titleWord (word : Text) : Text :=
  if Text.isUpper word && 1 < word.length then word else Text.lower word

/-- The title that an identifier makes: its words in small letters with single spaces between
them, the first one with a capital. -/
def humanize (name : Text) : Text :=
  capitalize (Text.join [' '] ((Text.words isGap (spaceWords name)).map titleWord))

end RazorViews.Wording
