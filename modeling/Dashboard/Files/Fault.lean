/-!
# What can go wrong with a file

The causes that the file system gives, with their wording and number.
-/

namespace Dashboard.Files

/-- Why a file operation failed. -/
inductive Fault where
  | notFound
  | exists
  | notDirectory
  | isDirectory
  | nameTooLong
  | nameHoldsNul
  | notText
deriving DecidableEq, Repr

/-- The wording of a fault. -/
def Fault.message : Fault → String
  | .notFound => "No such file or directory (os error 2)"
  | .exists => "File exists (os error 17)"
  | .notDirectory => "Not a directory (os error 20)"
  | .isDirectory => "Is a directory (os error 21)"
  | .nameTooLong => "File name too long (os error 36)"
  | .nameHoldsNul => "file name contained an unexpected NUL byte"
  | .notText => "stream did not contain valid UTF-8"

end Dashboard.Files
