import RazorViews.Text.Quoted

/-!
Refusals of the file system.
-/

namespace RazorViews

/-- Why the file system refuses an operation. -/
inductive SystemCause where
  | missing
  | alreadyThere
  | notAFolder
  | isAFolder
  | nameTooLong
  /-- A name with a NUL character, which no file can have. -/
  | nulInName
deriving DecidableEq, Repr

/-- A refusal, and the path it is about. -/
structure SystemError where
  cause : SystemCause
  path : Text
deriving DecidableEq, Repr

/-- The number and the wording of a cause that the system itself reports. -/
def SystemCause.report : SystemCause → Option (Nat × String)
  | missing => some (2, "No such file or directory")
  | alreadyThere => some (17, "File exists")
  | notAFolder => some (20, "Not a directory")
  | isAFolder => some (21, "Is a directory")
  | nameTooLong => some (36, "File name too long")
  | nulInName => none

def SystemError.text (e : SystemError) : Text :=
  match e.cause.report with
  | some (number, wording) =>
    "[Errno ".toList ++ Text.ofNat number ++ "] ".toList ++ wording.toList ++ ": ".toList ++
      Quoted.encode e.path
  | none => "embedded null byte".toList

end RazorViews
