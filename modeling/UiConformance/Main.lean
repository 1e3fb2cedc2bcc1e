import UiConformance.CommandLine.Run

/-!
# The program

Runs the command line on the real disk.
-/

namespace UiConformance

def FileError.ofIO : IO.Error → FileError
  | .noFileOrDirectory _ _ _ => .missing
  | .inappropriateType _ 21 _ => .isDirectory
  | .inappropriateType _ _ _ => .notDirectory
  | .invalidArgument _ _ _ => .nameTooLong
  | e => .other (toString e)

/-- The path leads to something, even where it cannot be read. -/
def FileError.leadsSomewhere (e : FileError) : Bool :=
  e ∉ [missing, notDirectory, nameTooLong]

def realFiles (home : Option String) : Files IO where
  read path := do
    try
      match String.fromUTF8? (← IO.FS.readBinFile path) with
      | some s => return .ok s
      | none => return .error .notText
    catch e => return .error (.ofIO e)
  contains path := do
    try
      let _ ← IO.FS.readBinFile path
      return true
    catch e => return (FileError.ofIO e).leadsSomewhere
  home

end UiConformance

open UiConformance in
def main (args : List String) : IO UInt32 := do
  let env : CommandLine.Environment IO :=
    { files := realFiles (← IO.getEnv "HOME")
      clock := IO.monoNanosNow
      terminal := ← (← IO.getStdout).isTty }
  let output ← CommandLine.run env args
  IO.print output.stdout
  IO.eprint output.stderr
  return UInt32.ofNat output.code
