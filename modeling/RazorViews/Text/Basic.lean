/-!
Texts as lists of characters, and the list operations every scanner here is built from.

All reading and writing in this library is about which character comes next, so a text is the list
of its characters and every law about texts is an induction on a list.  Strings appear only where
the outside world is met.
-/

namespace RazorViews

/-- A text is the list of its characters. -/
abbrev Text := List Char

namespace Text

def ofNat (n : Nat) : Text := Nat.toDigits 10 n

/-- The text of an integer: a minus sign before the numeral of a negative one. -/
def ofInt : Int → Text
  | .ofNat n => ofNat n
  | .negSucc n => '-' :: ofNat (n + 1)

/-- Cuts a text at every separator.  There is always one piece more than there are separators, and
empty pieces are kept. -/
def splitAt (sep : Char) : Text → List Text
  | [] => [[]]
  | c :: rest =>
    match splitAt sep rest with
    | [] => [[c]]
    | piece :: pieces => if c == sep then [] :: piece :: pieces else (c :: piece) :: pieces

def lines (t : Text) : List Text := splitAt '\n' t

/-- The pieces with a separator between neighbours. -/
def join (sep : Text) (pieces : List Text) : Text := sep.intercalate pieces

@[simp] theorem join_nil (sep : Text) : join sep [] = [] := List.intercalate_nil

@[simp] theorem join_singleton (sep piece : Text) : join sep [piece] = piece :=
  List.intercalate_singleton

@[simp] theorem join_cons_cons (sep first second : Text) (more : List Text) :
    join sep (first :: second :: more) = first ++ (sep ++ join sep (second :: more)) := by
  rw [join, List.intercalate_cons_cons, List.append_assoc, join]

def lineFeeds (t : Text) : Nat := t.count '\n'

/-- Just the line feeds of a text. -/
def onlyLineFeeds (t : Text) : Text := t.filter (· == '\n')

/-- The rest of a text after a beginning, when it has that beginning. -/
def stripFront? : (front t : Text) → Option Text
  | [], t => some t
  | _ :: _, [] => none
  | f :: front, c :: t => if f == c then stripFront? front t else none

/-- The rest of a text after a beginning, or the whole text when it begins otherwise. -/
def stripFront (front t : Text) : Text := (stripFront? front t).getD t

def beginsWith (t front : Text) : Bool := front.isPrefixOf t

def endsWith (t back : Text) : Bool := back.isSuffixOf t

/-- The text holds `part` as a stretch of neighbouring characters. -/
def holds (t part : Text) : Bool :=
  part.isPrefixOf t || match t with
    | [] => false
    | _ :: rest => holds rest part

/-- The text without the characters at its end that satisfy the test. -/
def dropEndWhile (drop : Char → Bool) (t : Text) : Text := (t.reverse.dropWhile drop).reverse

/-- The part of a text behind the last separator; the whole text when it has none. -/
def afterLast (sep : Char) (t : Text) : Text := (t.reverse.takeWhile (· != sep)).reverse

/-- The words of a text: its longest stretches free of separators. -/
def words (isSeparator : Char → Bool) : Text → List Text
  | [] => []
  | c :: rest =>
    if isSeparator c then words isSeparator rest
    else match rest with
      | [] => [[c]]
      | d :: _ =>
        if isSeparator d then [c] :: words isSeparator rest
        else match words isSeparator rest with
          | [] => [[c]]
          | word :: more => (c :: word) :: more

/-- The character lies in one of the spans, whose ends belong to them. -/
def inSpans (spans : List (Nat × Nat)) (c : Char) : Bool :=
  spans.any fun (first, last) => first ≤ c.toNat && c.toNat ≤ last

/-- Texts in the order of their code points, a beginning before what continues it. -/
def before : Text → Text → Bool
  | _, [] => false
  | [], _ :: _ => true
  | c :: s, d :: t => if c == d then before s t else c.toNat < d.toNat

end Text

end RazorViews
