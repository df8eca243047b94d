import RazorViews.Text.Pattern

/-!
Names of types as they are written in source.

A type may be written with the prefixes `global::` and `System.`, with free white space, with a
question mark behind it or inside `Nullable<…>`.  The functions here take such spellings back to a
type, to the table entry for it, or to the class that it is about.
-/

namespace RazorViews.TypeName

open Pattern

/-- The text behind the prefixes that may precede a type. -/
def dropPrefixes (t : Text) : Text :=
  Text.stripFront "System.".toList (Text.stripFront "global::".toList t)

def inLine (c : Char) : Bool := c != '\n'

/-- The whole text is `Nullable<…>`, possibly with prefixes. -/
def nullableWrapper : Pattern :=
  atStart ++ maybe (lit "global::") ++ maybe (lit "System.") ++ lit "Nullable" ++ blanks ++
  lit "<" ++ run1 inLine ++ lit ">" ++ atEnd

/-- The type admits no value at all: it ends with a question mark or is `Nullable<…>`.  A question
mark inside type arguments does not count. -/
def isNullable (rawType : Text) : Bool :=
  let t := Text.trim rawType
  t.endsWith ['?'] || (nullableWrapper.front? t).isSome

def looseBracket : Pattern :=
  blanks ++ keep "mark" (one ['<', '>', '?', '[', ']'].contains) ++ blanks

def looseComma : Pattern := blanks ++ lit "," ++ blanks

/-- A type in its usual spelling: no white space around brackets and question marks, one space
behind a comma, single spaces elsewhere, and no prefix. -/
def clean (rawType : Text) : Text :=
  let spaced := Text.trim (blanks1.replaceAll (fun _ => [' ']) rawType)
  let tight := looseBracket.replaceAll (fun found => (found.kept? "mark").getD []) spaced
  dropPrefixes (looseComma.replaceAll (fun _ => [',', ' ']) tight)

/-- `Nullable<…>` around something, small or capital. -/
def nullableArgument : Pattern :=
  atStart ++ litAnyCase "Nullable" ++ blanks ++ lit "<" ++ blanks ++
  keep "argument" (one inLine ++ run inLine .least) ++ blanks ++ lit ">" ++ atEnd

def dropMarks (t : Text) : Text := Text.dropEndWhile (· == '?') t

/-- The bare name of a type in small letters: no prefix, no `Nullable<…>`, no question mark. -/
def base (declaredType : Text) : Text :=
  let name := dropPrefixes (Text.trim (dropMarks (Text.trim declaredType)))
  let inner :=
    match (nullableArgument.front? name).bind (·.kept? "argument") with
    | some argument => dropPrefixes argument
    | none => name
  Text.lower (Text.trim (dropMarks inner))

/-- The first pair of angle brackets without brackets between them. -/
def typeArguments : Pattern :=
  let inside := fun c => c != '<' && c != '>'
  lit "<" ++ blanks ++ keep "arguments" (one inside ++ run inside .least) ++ blanks ++ lit ">"

/-- The last of the type arguments within the first innermost pair of brackets, or the type itself
if it has none.  There are no brackets within the arguments taken, so one step is enough. -/
def lastArgument (t : Text) : Text :=
  match (typeArguments.find? t).bind (·.kept? "arguments") with
  | some arguments => Text.trim (Text.afterLast ',' arguments)
  | none => t

/-- The name of the class that a type is about: the last step of its path, or of the path of its
last type argument. -/
def className (type : Text) : Text :=
  let path := Text.stripFront "global::".toList (dropMarks (lastArgument (Text.trim type)))
  Text.trim (Text.afterLast '.' path)

end RazorViews.TypeName
