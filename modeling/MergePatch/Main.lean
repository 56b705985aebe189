import MergePatch.Cli.Run
/-!
# The `armpatch` program

`main` reads the command line with `Cli.parse`, runs the command with `Cli.run` over the files of
the file system, prints what it gives on standard output and standard error, and exits with its
code. A file that cannot be read is reported in the system's words: the text of the error code
and `(os error N)`.
-/

namespace MergePatch

namespace Cli

/-- The system's words for an error code; codes from the event loop library come negated. -/
def osText (raw : UInt32) : String :=
  let code := if raw.toNat ≥ Nat.pow 2 31 then Nat.pow 2 32 - raw.toNat else raw.toNat
  let words := match code with
    | 2 => "No such file or directory"
    | 13 => "Permission denied"
    | 20 => "Not a directory"
    | 21 => "Is a directory"
    | _ => "Input/output error"
  words ++ " (os error " ++ toString code ++ ")"

/-- The words for a failed read. -/
def readFailure : IO.Error → String
  | .noFileOrDirectory _ code _ => osText code
  | .inappropriateType _ code _ => osText code
  | .permissionDenied _ code _ => osText code
  | .invalidArgument _ code _ => osText code
  | .noSuchThing _ code _ => osText code
  | .otherError code _ => osText code
  | e => toString e

/-- Reads a file's text, or gives why it could not be read. -/
def readPath (path : String) : IO (Except String String) := do
  try
    let text ← IO.FS.readFile path
    pure (.ok text)
  catch e =>
    pure (.error (readFailure e))

end Cli

end MergePatch

/-- Runs `armpatch` with the given arguments. -/
def main (args : List String) : IO UInt32 := do
  match MergePatch.Cli.parse args with
  | .reply code out err =>
    IO.print out
    IO.eprint err
    pure code.toUInt32
  | .run inv =>
    let o ← MergePatch.Cli.run MergePatch.Cli.readPath inv
    IO.print o.stdout
    IO.eprint o.stderr
    pure o.code.toUInt32
