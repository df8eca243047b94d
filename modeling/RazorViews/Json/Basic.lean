import RazorViews.Number.Basic

/-!
JSON documents.

An object keeps its members in the order of their first appearance; a key that is given again
replaces the value and keeps the place.
-/

namespace RazorViews

/-- A JSON document. -/
inductive Json where
  | null
  | bool (b : Bool)
  | number (n : Number)
  | text (t : Text)
  | list (items : List Json)
  | object (members : List (Text × Json))

namespace Json

instance : Inhabited Json := ⟨null⟩

/-- The members of an object after one of them is given, in its old place or a new one at the
end. -/
def put (key : Text) (value : Json) : List (Text × Json) → List (Text × Json)
  | [] => [(key, value)]
  | (k, v) :: rest => if k == key then (k, value) :: rest else (k, v) :: put key value rest

def get? (document : Json) (key : String) : Option Json :=
  match document with
  | object members => members.lookup key.toList
  | _ => none

def literal (s : String) : Json := text s.toList

/-- An object from its members. -/
def record (members : List (String × Json)) : Json :=
  object (members.map fun (k, v) => (k.toList, v))

def ofNat (n : Nat) : Json := number (.whole n)

def ofTexts (ts : List Text) : Json := list (ts.map text)

/-- A value that may be missing, as a document. -/
def ofOption {α : Type} (encode : α → Json) : Option α → Json
  | none => null
  | some a => encode a

end Json

end RazorViews
