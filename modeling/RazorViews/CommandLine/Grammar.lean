import RazorViews.Text.Pattern

/-!
Command lines: options in any order, and words in their places.

An argument is a word, an option, or the divider `--`, behind which all arguments are words.  An
option of two dashes may be cut short as long as only one option begins that way, and may have its
value behind an equals sign.  An option of one dash takes no value, and several may share the dash.
Words fill the places of the grammar in order; the word for a command takes all arguments behind it
along.
-/

namespace RazorViews.CommandLine

/-- How a command line ends without a command to run. -/
inductive Stop where
  | help
  /-- The arguments do not follow the grammar. -/
  | misuse
deriving DecidableEq, Repr

/-- What an option does. -/
inductive Effect where
  | help
  | flag
  /-- Takes a value, if that is acceptable. -/
  | value (accepts : Text → Bool)

/-- An option: its names, what it does, and the key for what it leaves behind. -/
structure OptionRule where
  names : List Text
  effect : Effect
  key : String

/-- What fills a place. -/
inductive Filling where
  | one
  /-- One word, or nothing. -/
  | atMostOne
  | command
deriving DecidableEq, Repr

/-- A place for a word, and the key for what fills it. -/
structure WordPlace where
  filling : Filling
  key : String
deriving DecidableEq, Repr

/-- Keys of which at most one may be given; perhaps one has to be. -/
structure Exclusion where
  keys : List String
  required : Bool
deriving DecidableEq, Repr

/-- The grammar of a command line. -/
structure Grammar where
  options : List OptionRule
  places : List WordPlace
  exclusions : List Exclusion

/-! ## Kinds of arguments -/

/-- The use of an option. -/
structure OptionUse where
  /-- The option; nothing if the grammar has none like it. -/
  rule : Option OptionRule
  /-- The name that it is known by. -/
  name : Text
  /-- What stands behind the name in the same argument. -/
  attached : Option Text
  /-- There is an equals sign in between. -/
  byEquals : Bool

inductive ArgumentKind where
  | word
  | divider
  | option (use : OptionUse)

abbrev Argument := Text × ArgumentKind

namespace Grammar

def rule? (g : Grammar) (name : Text) : Option OptionRule :=
  g.options.find? fun r => r.names.contains name

/-- All names, each with its option. -/
def names (g : Grammar) : List (Text × OptionRule) :=
  g.options.flatMap fun r => r.names.map fun name => (name, r)

/-- The parts of an argument in front of and behind its first equals sign, if it has one. -/
def atEquals (argument : Text) : Text × Option Text :=
  match argument.dropWhile (· != '=') with
  | [] => (argument, none)
  | _ :: behind => (argument.takeWhile (· != '='), some behind)

/-- The options that an argument of two dashes may be short for. -/
def longUses (g : Grammar) (argument : Text) : List OptionUse :=
  let (front, behind) := atEquals argument
  g.names.filterMap fun (name, r) =>
    if name.beginsWith front then some ⟨some r, name, behind, behind.isSome⟩ else none

/-- The options that an argument of one dash may begin with or be short for. -/
def shortUses (g : Grammar) (argument : Text) : List OptionUse :=
  g.names.filterMap fun (name, r) =>
    if name == argument.take 2 then some ⟨some r, name, some (argument.drop 2), false⟩
    else if name.beginsWith argument then some ⟨some r, name, none, false⟩
    else none

/-- The argument is a negative number. -/
def negativeNumber : Pattern :=
  .atStart ++ .lit "-" ++
    .either (.run1 Text.isDecimal) (.run Text.isDecimal .most ++ .lit "." ++
      .run1 Text.isDecimal) ++ .atEnd

/-- The kind of an argument that begins with a dash and is not the name of an option. -/
def kindOfDashed (g : Grammar) (argument : Text) : Except Stop ArgumentKind :=
  let uses :=
    if argument.beginsWith ['-', '-'] then g.longUses argument else g.shortUses argument
  match uses with
  | [use] => .ok (.option use)
  | _ :: _ :: _ => .error .misuse
  | [] =>
    if (negativeNumber.front? argument).isSome || argument.contains ' ' then .ok .word
    else .ok (.option ⟨none, argument, none, false⟩)

/-- The kind of an argument in front of the divider. -/
def kindOf (g : Grammar) (argument : Text) : Except Stop ArgumentKind :=
  if !argument.beginsWith ['-'] || argument.length == 1 then .ok .word
  else
    match g.rule? argument with
    | some r => .ok (.option ⟨some r, argument, none, false⟩)
    | none =>
      let (front, behind) := atEquals argument
      match behind, g.rule? front with
      | some value, some r => .ok (.option ⟨some r, front, some value, true⟩)
      | _, _ => g.kindOfDashed argument

def kinds (g : Grammar) : List Text → Except Stop (List Argument)
  | [] => .ok []
  | argument :: rest =>
    if argument == ['-', '-'] then
      .ok ((argument, .divider) :: rest.map fun word => (word, .word))
    else do
      let kind ← g.kindOf argument
      return (argument, kind) :: (← kinds g rest)

end Grammar

/-! ## Reading -/

/-- What has been read of a command line. -/
structure Reading where
  /-- What options and words left behind under their keys, the latest first. -/
  given : List (String × Text)
  /-- The places that are still open. -/
  places : List WordPlace
  /-- An argument was passed over that nothing was known to do with. -/
  unknown : Bool

namespace Reading

def start (g : Grammar) : Reading := ⟨[], g.places, false⟩

def value? (r : Reading) (key : String) : Option Text := r.given.lookup key

def has (r : Reading) (key : String) : Bool := (r.value? key).isSome

/-- Something given under a key, unless something that excludes it was given before. -/
def give (g : Grammar) (r : Reading) (key : String) (value : Text) : Except Stop Reading :=
  let excluded := g.exclusions.any fun e =>
    e.keys.contains key && e.keys.any fun other => other != key && r.has other
  if excluded then .error .misuse else .ok { r with given := (key, value) :: r.given }

/-! ## Options -/

def act (g : Grammar) (r : Reading) (rule : OptionRule) (value : Text) : Except Stop Reading :=
  match rule.effect with
  | .help => .error .help
  | .flag => r.give g rule.key []
  | .value accepts => if accepts value then r.give g rule.key value else .error .misuse

/-- The options that share the dash of the one in front of the given letters; the flag tells that
some letters are not known. -/
def sharedDash (g : Grammar) : Text → Except Stop (List OptionRule × Bool)
  | [] => .ok ([], false)
  | letter :: rest =>
    if letter == '-' then .error .misuse
    else
      match g.rule? ['-', letter] with
      | none => .ok ([], true)
      | some rule =>
        if rest.head? == some '=' then .error .misuse
        else do
          let (rules, unknown) ← sharedDash g rest
          return (rule :: rules, unknown)

def takesValue (rule : OptionRule) : Bool :=
  match rule.effect with
  | .value _ => true
  | _ => false

/-- Does what several options do, one after the other. -/
def actAll (g : Grammar) (r : Reading) : List OptionRule → Except Stop Reading
  | [] => .ok r
  | rule :: rules => do actAll g (← r.act g rule []) rules

/-- Uses an option without a value, which has something attached. -/
def useAttached (g : Grammar) (r : Reading) (rule : OptionRule) (use : OptionUse)
    (attached : Text) : Except Stop Reading := do
  if use.name.beginsWith ['-', '-'] || attached.isEmpty || use.byEquals then throw .misuse
  let (rules, unknown) ← sharedDash g attached
  let acted ← r.actAll g (rule :: rules)
  return { acted with unknown := acted.unknown || unknown }

/-- Uses an option; the arguments behind it that it does not take are left. -/
def useOption (g : Grammar) (r : Reading) (use : OptionUse) (rest : List Argument) :
    Except Stop (Reading × List Argument) :=
  match use.rule with
  | none => .ok ({ r with unknown := true }, rest)
  | some rule =>
    match use.attached, takesValue rule with
    | some value, true => do return (← r.act g rule value, rest)
    | some attached, false => do return (← r.useAttached g rule use attached, rest)
    | none, false => do return (← r.act g rule [], rest)
    | none, true =>
      match rest with
      | (value, .word) :: behind => do return (← r.act g rule value, behind)
      | _ => .error .misuse

/-! ## Words -/

/-- How commands are read: the reading of the arguments behind a command, for the commands that
there are. -/
abbrev Commands := Text → Option (List Text → Except Stop Reading)

/-- The arguments without dividers in front. -/
def dropDividers : List Argument → List Argument
  | (_, .divider) :: rest => dropDividers rest
  | rest => rest

/-- The text that a word in front of the arguments brings to its place.  A further `--` brings none,
unless it comes with the divider. -/
def wordText : List Argument → Text
  | (word, .word) :: _ => if word == ['-', '-'] then [] else word
  | arguments =>
    match dropDividers arguments with
    | (word, _) :: _ => word
    | [] => []

/-- Fills the place of a command: what the command left behind is added. -/
def fillCommand (commands : Commands) (r : Reading) (key : String) :
    List Argument → Except Stop Reading
  | (name, .word) :: rest =>
    match commands name with
    | none => .error .misuse
    | some read => do
      let inner ← read (rest.map Prod.fst)
      return { r with
        given := inner.given ++ (key, name) :: r.given
        unknown := r.unknown || inner.unknown }
  | _ => .error .misuse

/-- Fills open places with the words in front of the arguments, as far as there are any. -/
def fillPlaces (g : Grammar) (commands : Commands) (r : Reading) :
    List WordPlace → List Argument → Except Stop (Reading × List Argument)
  | [], arguments => .ok ({ r with places := [] }, arguments)
  | place :: places, arguments =>
    match place.filling, dropDividers arguments with
    | .command, (_, .word) :: _ => do
      return ({ ← r.fillCommand commands place.key arguments with places := places }, [])
    | _, (_, .word) :: rest => do
      fillPlaces g commands (← r.give g place.key (wordText arguments)) places (dropDividers rest)
    | .atMostOne, rest => fillPlaces g commands r places rest
    | _, _ => .ok ({ r with places := place :: places }, arguments)

def isOption : Argument → Bool
  | (_, .option _) => true
  | _ => false

/-- Reads arguments, at most `turns` words or options one after the other.  When no option is
left, the words fill the places one last time. -/
def readFrom (g : Grammar) (commands : Commands) :
    (turns : Nat) → Reading → List Argument → Except Stop Reading
  | 0, r, _ => .ok r
  | turns + 1, r, arguments =>
    match arguments with
    | (_, .option use) :: rest => do
      let (used, left) ← r.useOption g use rest
      readFrom g commands turns used left
    | _ => do
      let (filled, left) ← r.fillPlaces g commands r.places arguments
      if !arguments.any isOption then
        return { filled with unknown := filled.unknown || !left.isEmpty }
      else if left.length < arguments.length then readFrom g commands turns filled left
      else readFrom g commands turns { filled with unknown := true } (arguments.drop 1)

def isComplete (g : Grammar) (r : Reading) : Bool :=
  r.places.all (fun place => place.filling == .atMostOne) &&
    g.exclusions.all fun e => !e.required || e.keys.any r.has

end Reading

def Grammar.read (g : Grammar) (commands : Reading.Commands) (arguments : List Text) :
    Except Stop Reading := do
  let kinds ← g.kinds arguments
  let r ← Reading.readFrom g commands (arguments.length + 1) (Reading.start g) kinds
  if r.isComplete g then return r else throw .misuse

end RazorViews.CommandLine
