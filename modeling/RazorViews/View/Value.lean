import RazorViews.Failure
import RazorViews.Number.Reader
import RazorViews.Number.Shortest

/-!
Values in the context of a page.

A context gives values of any kind under names, or nothing.  A page never fails for want of a
value: nothing prints as nothing, counts as false and holds no items.  It fails only if a value is
there and is of a kind that cannot be used as the page wants to, or is to be printed and has a whole
number of too many digits in it.
-/

namespace RazorViews

/-- What a context gives under a name: a value, or nothing. -/
abbrev Value := Option Json

namespace Value

/-! ## Printing -/

/-- A number as it is printed. -/
def numberText : Number → Text
  | .whole n => Text.ofInt n
  | .real x => Number.writeFloat .plain x

mutual

/-- A value as it is printed inside a list or an object. -/
def innerText : Json → Text
  | .null => "None".toList
  | .bool b => if b then "True".toList else "False".toList
  | .number n => numberText n
  | .text t => Quoted.encode t
  | .list items => '[' :: Text.join [',', ' '] (itemTexts items) ++ [']']
  | .object members => '\x7b' :: Text.join [',', ' '] (memberTexts members) ++ ['\x7d']

def itemTexts : List Json → List Text
  | [] => []
  | item :: items => innerText item :: itemTexts items

/-- Each member of an object. -/
def memberTexts : List (Text × Json) → List Text
  | [] => []
  | (key, value) :: members => (Quoted.encode key ++ ':' :: ' ' :: innerText value) ::
      memberTexts members

end

/-- A value as it is printed; a text stands for itself. -/
def text : Value → Text
  | none => []
  | some (.text t) => t
  | some value => innerText value

mutual

/-- No whole number in a value has more digits than are printed. -/
def isShortInside : Json → Bool
  | .number (.whole n) => (Text.ofNat n.natAbs).length ≤ Number.maxDigits
  | .list items => areItemsShort items
  | .object members => areMembersShort members
  | _ => true

def areItemsShort : List Json → Bool
  | [] => true
  | item :: items => isShortInside item && areItemsShort items

def areMembersShort : List (Text × Json) → Bool
  | [] => true
  | (_, value) :: members => isShortInside value && areMembersShort members

end

def isPrintable (value : Value) : Bool := value.all isShortInside

/-- Fails unless all of the values can be printed. -/
def print (values : List Value) : Except Failure Unit :=
  if values.all isPrintable then .ok () else .error (.tooManyDigits none)

/-! ## Tests -/

/-- The value counts as true: it is neither missing, nor null, false, zero, nor empty. -/
def isTrue : Value → Bool
  | none => false
  | some .null => false
  | some (.bool b) => b
  | some (.number n) => !n.isZero
  | some (.text t) => !t.isEmpty
  | some (.list items) => !items.isEmpty
  | some (.object members) => !members.isEmpty

/-- The first value if it counts as true, and else the second. -/
def orElse (a b : Value) : Value := if isTrue a then a else b

/-- The number that a value counts as in comparisons: a flag is one or zero. -/
def number? : Json → Option Number
  | .number n => some n
  | .bool b => some (.whole (if b then 1 else 0))
  | _ => none

mutual

/-- Equality of values; the order of members does not matter. -/
def sameJson : Json → Json → Bool
  | .null, .null => true
  | .text s, .text t => s == t
  | .list items, .list others => sameItems items others
  | .object members, .object others =>
    members.length == others.length && sameMembers members others
  | .bool a, b => ((number? b).map (Number.same (.whole (if a then 1 else 0)))).getD false
  | .number m, b => ((number? b).map (Number.same m)).getD false
  | _, _ => false

def sameItems : List Json → List Json → Bool
  | [], [] => true
  | a :: items, b :: others => sameJson a b && sameItems items others
  | _, _ => false

/-- Every member is found in the other object, with an equal value. -/
def sameMembers : List (Text × Json) → List (Text × Json) → Bool
  | [], _ => true
  | (key, value) :: members, others =>
    (match others.lookup key with
    | some other => sameJson value other
    | none => false) && sameMembers members others

end

/-- Equality; nothing equals nothing. -/
def same : Value → Value → Bool
  | none, none => true
  | some a, some b => sameJson a b
  | _, _ => false

/-! ## Parts -/

/-- The part of a value under a name; only objects have parts. -/
def part (value : Value) (key : String) : Value := value.bind (·.get? key)

/-- The items of a value: of a list its items, of a text its characters, of an object its keys. -/
def items : Value → Except Failure (List Value)
  | none => .ok []
  | some (.list items) => .ok (items.map some)
  | some (.text t) => .ok (t.map fun c => some (.text [c]))
  | some (.object members) => .ok (members.map fun (key, _) => some (.text key))
  | some _ => .error .wrongKind

end Value

end RazorViews
