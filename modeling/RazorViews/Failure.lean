import RazorViews.Problem
import RazorViews.Text.Utf8
import RazorViews.Validation.Basic

/-!
Everything that can keep an operation from its result.
-/

namespace RazorViews

/-- What keeps an operation from its result. -/
inductive Failure where
  | problem (p : Problem)
  | invalid (faults : List Fault)
  | system (e : SystemError)
  | undecodable (d : Utf8.Defect)
  | blankTypeName
  /-- A cache for no entries. -/
  | noEntries
  /-- A cache whose entries never live. -/
  | noLifetime
  | noModelType
  | notANumber
  /-- A whole number of more digits than are read, with their count, or than are printed. -/
  | tooManyDigits (digits : Option Nat)
  /-- A template does something with a value that such values do not allow. -/
  | wrongKind
  /-- A template wants something of a value that such values do not have. -/
  | noSuchPart

namespace Failure

/-- The wording of the failures that name a value this program does not accept. -/
def complaint? : Failure → Option Text
  | blankTypeName => some "type_name must be a non-empty type name".toList
  | noEntries => some "max_entries must be at least 1".toList
  | noLifetime => some "expiration_seconds must be positive".toList
  | noModelType => some "model_type is required for CRUD scaffolding".toList
  | _ => none

def digitsText (limit : Nat) (digits : Option Nat) : Text :=
  let count := match digits with
    | some n => ": value has ".toList ++ Text.ofNat n ++ " digits".toList
    | none => []
  "Exceeds the limit (".toList ++ Text.ofNat limit ++
    " digits) for integer string conversion".toList ++ count ++
    "; use sys.set_int_max_str_digits() to increase the limit".toList

def text : Failure → Text
  | problem p => p.message
  | invalid faults => Fault.textOfAll faults
  | system e => e.text
  | undecodable d => d.text
  | notANumber => "not a number".toList
  | tooManyDigits (some digits) => "a numeral of ".toList ++ Text.ofNat digits ++ " digits".toList
  | tooManyDigits none => "a number of too many digits".toList
  | wrongKind => "a value of the wrong kind".toList
  | noSuchPart => "a value without the part that is asked for".toList
  | other => other.complaint?.getD []

end Failure

end RazorViews
