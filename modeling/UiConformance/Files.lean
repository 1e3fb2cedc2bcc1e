/-!
# Files

Access to files by path, in any setting that can provide it: a real disk, or a folder in memory. The
extension of a path decides the format of what is in the file.
-/

namespace UiConformance

inductive FileError
  | missing
  | notDirectory
  | isDirectory
  | nameTooLong
  /-- The file does not hold text. -/
  | notText
  | other (message : String)
  deriving DecidableEq, Repr

def FileError.message : FileError → String
  | missing => "No such file or directory (os error 2)"
  | notDirectory => "Not a directory (os error 20)"
  | isDirectory => "Is a directory (os error 21)"
  | nameTooLong => "File name too long (os error 36)"
  | notText => "stream did not contain valid UTF-8"
  | other message => message

/-- Files as a program sees them. -/
structure Files (m : Type → Type) where
  read : String → m (Except FileError String)
  contains : String → m Bool
  /-- The folder of the user. -/
  home : Option String

namespace Path

/-- The names between the slashes of a path, without the empty ones and single dots. -/
def names (path : String) : List (List Char) :=
  (path.toList.splitOn '/').filter fun name => !name.isEmpty && name != ['.']

/-- What follows the last dot of a name, unless the name begins with that dot. -/
def extensionOfName (name : List Char) : List Char :=
  let (after, before) := name.reverse.span (· != '.')
  if before.length ≤ 1 || name == ['.', '.'] then [] else after.reverse

def extension (path : String) : String :=
  String.ofList (((names path).getLast?.map extensionOfName).getD [])

def join (folder name : String) : String :=
  if folder.toList.getLast? == some '/' then folder ++ name else folder ++ "/" ++ name

example : extension "a.b/c.yaml" = "yaml" ∧ extension ".yaml" = "" ∧ extension "a." = "" := by cbv

end Path

end UiConformance
