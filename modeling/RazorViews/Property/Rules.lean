import RazorViews.Source.Lexeme
import RazorViews.Source.Member
import RazorViews.Source.TypeName

/-!
The rules that sort candidates: which are left out, which are keys, which must be filled in.

Each question has its rules in order.  Annotations are read with comments and quoted text erased,
so a word in a caption is never taken for an annotation.
-/

namespace RazorViews.Rules

open Pattern

/-- What the rules may look at. -/
structure Facts where
  name : Text
  /-- The annotations with comments and the insides of literals erased. -/
  keywords : List Text
  isNullable : Bool
  isPrimaryKey : Bool
  /-- A property named `Id` is to be left out. -/
  skipIdentity : Bool
deriving DecidableEq, Repr

def keywords (attributes : List Text) : List Text := attributes.map Source.erase

/-- The facts about a candidate, before it is known whether it is a key. -/
def facts (c : Candidate) (skipIdentity : Bool) : Facts :=
  { name := c.name
    keywords := keywords c.attributes
    isNullable := TypeName.isNullable c.rawType
    isPrimaryKey := false
    skipIdentity := skipIdentity }

/-! ## What the rules test -/

/-- An annotation of a name, with or without the suffix `Attribute`, small or capital. -/
def annotationNamed (name : String) : Pattern :=
  wordEdge ++ litAnyCase name ++ maybe (litAnyCase "Attribute") ++ wordEdge

def Facts.isMarked (f : Facts) (pattern : Pattern) : Bool := f.keywords.any pattern.isIn

/-- Words in annotations that leave a property out. -/
def excludingWords : List String := ["NotMapped", "Computed", "DatabaseGenerated"]

/-- Endings of the names of bookkeeping fields. -/
def auditEndings : List String :=
  ["CreatedAt", "UpdatedAt", "ModifiedAt", "DeletedAt", "Version", "Timestamp", "RowVersion"]

def Facts.isExcluded (f : Facts) : Bool :=
  f.keywords.any fun t => excludingWords.any fun word => t.holds word.toList

def Facts.isAudit (f : Facts) : Bool :=
  auditEndings.any fun ending => (litAnyCase ending ++ atEnd).isIn f.name

def Facts.isNamedId (f : Facts) : Bool := Text.lower f.name == "id".toList

def Facts.endsInId (f : Facts) : Bool := (Text.lower f.name).endsWith "id".toList

/-! ## The rules -/

/-- Why a candidate is left out. -/
inductive SkipReason where
  | excludedByWord
  | auditField
  | identityField
deriving DecidableEq, Repr

def SkipReason.name : SkipReason → Text
  | excludedByWord => "excluded-annotation".toList
  | auditField => "audit-field".toList
  | identityField => "identity-field".toList

/-- The reasons to leave a candidate out, the first one first. -/
def skipRules : List (SkipReason × (Facts → Bool)) :=
  [(.excludedByWord, Facts.isExcluded), (.auditField, Facts.isAudit),
   (.identityField, fun f => f.skipIdentity && f.isNamedId)]

/-- What makes a candidate the key. -/
def keyRules : List (Facts → Bool) :=
  [Facts.isNamedId, Facts.endsInId, fun f => f.isMarked (annotationNamed "Key")]

/-- What decides whether a candidate must be filled in, and how; the first that applies decides. -/
def requiredRules : List ((Facts → Bool) × Bool) :=
  [(fun f => f.isMarked (annotationNamed "Required"), true),
   (fun f => f.isMarked (annotationNamed "ValidateNever"), false),
   (Facts.isNullable, false),
   (Facts.isPrimaryKey, false)]

/-- Why a candidate is left out; none when it is kept. -/
def skipReason? (c : Candidate) (skipIdentity : Bool) : Option SkipReason :=
  (skipRules.find? fun rule => rule.2 (facts c skipIdentity)).map (·.1)

/-- What is derived of a candidate. -/
structure Classification where
  declaredType : Text
  isNullable : Bool
  isPrimaryKey : Bool
  isRequired : Bool
deriving DecidableEq, Repr

/-- Whether facts make a candidate required; nothing said means that it is. -/
def isRequired (f : Facts) : Bool :=
  ((requiredRules.find? fun rule => rule.1 f).map (·.2)).getD true

def classify (c : Candidate) : Classification :=
  let f := facts c false
  let isKey := keyRules.any fun rule => rule f
  { declaredType := TypeName.clean c.rawType
    isNullable := f.isNullable
    isPrimaryKey := isKey
    isRequired := isRequired { f with isPrimaryKey := isKey } }

end RazorViews.Rules
