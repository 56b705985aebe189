/-!
# Reading files by path

The tool reads the files its arguments name. `FileError` is what the operating system answers
when a path does not name a readable file, in its own words. `Directory.read` reads a path
relative to a directory of files held in memory, whose stored paths may pass through
directories: `.` and empty components stay where they are, `..` goes up a level (from the top,
out of the directory), a name below a file is not in a directory, and a path that ends at a
directory names no file.
-/

namespace MergePatch

namespace Cli

/-- Why a path could not be read as a file. -/
inductive FileError where
  | notFound
  | isDirectory
  | notDirectory
  /-- Any other refusal, in the system's words. -/
  | other (text : String)
deriving Repr, Inhabited

/-- The system's words for a refusal. -/
def FileError.message : FileError → String
  | .notFound => "No such file or directory (os error 2)"
  | .isDirectory => "Is a directory (os error 21)"
  | .notDirectory => "Not a directory (os error 20)"
  | .other t => t

/-- A directory of plain files: paths below it, `/` between their names, and contents. A file
below a name makes that name a directory. -/
abbrev Directory := List (String × String)

/-- Where a walk along a path stands. -/
inductive Place where
  /-- In the directory, or in the directory below it reached by these names. -/
  | inside (names : List String)
  /-- Outside it, in a directory whose files are unknown. -/
  | outside
  /-- At a file. -/
  | file (text : String)
  /-- Below a name that does not exist. -/
  | missing
  /-- Below a file. -/
  | belowFile

namespace Directory

/-- The names along a stored path, empty names and `.` left out. -/
def names (path : String) : List String :=
  (path.splitOn "/").filter fun c => !(c.isEmpty || c == ".")

/-- What the names below the directory lead to: a file, a directory that holds a file, or
nothing. -/
def entry (d : Directory) (ns : List String) : Place :=
  match d.find? (fun (p, _) => names p == ns) with
  | some (_, t) => .file t
  | none => if d.any (fun (p, _) => ns.isPrefixOf (names p)) then .inside ns else .missing

/-- One step of a walk along a path. -/
def step (d : Directory) : Place → String → Place
  | .inside ns, c =>
    if c.isEmpty || c == "." then .inside ns
    else if c == ".." then (if ns.isEmpty then .outside else .inside ns.dropLast)
    else d.entry (ns ++ [c])
  | .outside, c => if c.isEmpty || c == "." || c == ".." then .outside else .missing
  | .file _, _ => .belowFile
  | .missing, _ => .missing
  | .belowFile, _ => .belowFile

/-- The text of the file at a path relative to the directory. An absolute path leaves it. -/
def read (d : Directory) (path : String) : Except FileError String :=
  if path.isEmpty then .error .notFound
  else
    let parts := path.splitOn "/"
    let start : Place := if path.startsWith "/" then .outside else .inside []
    match (if path.startsWith "/" then parts.drop 1 else parts).foldl (step d) start with
    | .file t => .ok t
    | .inside _ => .error .isDirectory
    | .outside => .error .isDirectory
    | .missing => .error .notFound
    | .belowFile => .error .notDirectory

end Directory

end Cli

end MergePatch
