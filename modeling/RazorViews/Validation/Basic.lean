import RazorViews.Text.Basic

/-!
Checking loosely typed data, field by field, and collecting everything that is wrong with it.

A check either yields a value or the complete list of faults.  Two checks of different fields are
independent: when both fail, the faults of both are reported, in the order of the fields.
-/

namespace RazorViews

/-- What can be wrong with a value. -/
inductive FaultKind where
  | missing
  | textTooShort
  | notText
  | tooSmall
  | notAboveBound
  | unreadableWhole
  | notWhole
  | fractionalWhole
  | oversizedWhole
  | infiniteWhole
  | unreadableReal
  | notReal
  | unreadableFlag
  | notFlag
  | notList
  | notTuple
  | notAChoice
  | notARecord
  | notJson
deriving DecidableEq, Repr

/-- The code that a fault is reported under. -/
def FaultKind.code : FaultKind → String
  | missing => "missing"
  | textTooShort => "string_too_short"
  | notText => "string_type"
  | tooSmall => "greater_than_equal"
  | notAboveBound => "greater_than"
  | unreadableWhole => "int_parsing"
  | notWhole => "int_type"
  | fractionalWhole => "int_from_float"
  | oversizedWhole => "int_parsing_size"
  | infiniteWhole => "finite_number"
  | unreadableReal => "float_parsing"
  | notReal => "float_type"
  | unreadableFlag => "bool_parsing"
  | notFlag => "bool_type"
  | notList => "list_type"
  | notTuple => "tuple_type"
  | notAChoice => "enum"
  | notARecord => "model_type"
  | notJson => "json_invalid"

/-- A fault and where it is: the keys and indices that lead to it, outermost first. -/
structure Fault where
  location : List Text
  kind : FaultKind
deriving DecidableEq, Repr

/-- The text of a fault: its location, a colon, its code. -/
def Fault.text (f : Fault) : Text :=
  Text.join ['.'] f.location ++ ':' :: f.kind.code.toList

def Fault.textOfAll (faults : List Fault) : Text := Text.join [';', ' '] (faults.map Fault.text)

/-- The outcome of a check. -/
inductive Checked (α : Type) where
  | good (a : α)
  | bad (faults : List Fault)
deriving Repr

namespace Checked

/-- A failed check of a value as a whole. -/
def fault {α : Type} (kind : FaultKind) : Checked α := bad [⟨[], kind⟩]

def map {α β : Type} (f : α → β) : Checked α → Checked β
  | good a => good (f a)
  | bad faults => bad faults

/-- Two independent checks; the faults of both are kept. -/
def ap {α β : Type} : Checked (α → β) → Checked α → Checked β
  | good f, good a => good (f a)
  | good _, bad faults => bad faults
  | bad faults, good _ => bad faults
  | bad faults, bad more => bad (faults ++ more)

/-- A check that depends on what another yields. -/
def andThen {α β : Type} : Checked α → (α → Checked β) → Checked β
  | good a, next => next a
  | bad faults, _ => bad faults

instance : Functor Checked := { map := map }

instance : Applicative Checked where
  pure := good
  seq f a := ap f (a ())

/-- Faults are found below a key or an index. -/
def under {α : Type} (step : Text) : Checked α → Checked α
  | good a => good a
  | bad faults => bad (faults.map fun f => { f with location := step :: f.location })

/-- Independent checks of the items of a list, numbered from `index`. -/
def each {α β : Type} (check : α → Checked β) (index : Nat) : List α → Checked (List β)
  | [] => good []
  | a :: rest =>
    ap (map List.cons ((check a).under (Text.ofNat index))) (each check (index + 1) rest)

end Checked

end RazorViews
