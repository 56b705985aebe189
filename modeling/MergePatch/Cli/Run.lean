import MergePatch.Cli.Args
import MergePatch.Cli.Failure
import MergePatch.Patch.Assignment
import MergePatch.Patch.Merge
import MergePatch.Json.Write
import MergePatch.Yaml.Node
/-!
# Running the commands

`Cli.run` runs a command over a file reader and gives the exit code and what was printed.

* `render` starts from a new resource, or from the resource in the `--from` file (whose fields
  are not marked as assigned), applies each `--set` assignment in order, and prints the body,
  in full or as a merge patch, with the names of the assigned fields.
* `apply` reads the `--target` document and the `--merge` patch and prints the patched document.
* `diff` reads two documents and prints the merge patch from the first to the second.

Results print as pretty JSON with a heading in the human format, as pretty JSON in the `json`
format (the rendered body as the object `mergePatch`, `mutatedFields`, `body`, in that order), or
as YAML. A failure prints its report on standard error and exits with code 1.
-/

namespace MergePatch

namespace Cli

/-- The exit code and the text printed on the two streams. -/
structure Outcome where
  code : Nat
  stdout : String := ""
  stderr : String := ""
deriving Repr, Inhabited

/-- A rendered request body: whether it is a merge patch, the assigned fields and the body. -/
structure Rendered where
  mergePatch : Bool
  mutatedFields : List String
  body : Json
deriving Repr, Inhabited

/-- The text of a rendered body in a format. -/
def Rendered.print (r : Rendered) : Format → String
  | .human =>
    "Body: " ++ (if r.mergePatch then "merge patch" else "full") ++ "\nMutated: " ++
      (if r.mutatedFields.isEmpty then "(none)" else ", ".intercalate r.mutatedFields) ++ "\n" ++
      Json.pretty r.body ++ "\n"
  | .json =>
    "\x7b\n" ++ Json.prettyFields 1 [("mergePatch", .bool r.mergePatch),
      ("mutatedFields", .array (r.mutatedFields.map .string)), ("body", r.body)] ++ "\n\x7d\n"
  | .yaml =>
    Yaml.emit (.map [("mergePatch", Yaml.Node.ofJson (.bool r.mergePatch)),
      ("mutatedFields", .seq (r.mutatedFields.map Yaml.Node.ofText)),
      ("body", Yaml.Node.ofJson r.body)])

/-- The text of a document in a format. -/
def printDocument (j : Json) : Format → String
  | .yaml => Yaml.emit (Yaml.Node.ofJson j)
  | _ => Json.pretty j ++ "\n"

section

variable {m : Type → Type} [Monad m]

/-- Reads a file's text. -/
def readFile (read : String → m (Except String String)) (path : String) :
    ExceptT Failure m String := do
  match ← (read path : m _) with
  | .ok text => pure text
  | .error why => throw { message := "Failed to read '" ++ path ++ "'", causes := [why] }

/-- Reads a file as a JSON document. -/
def readJsonFile (read : String → m (Except String String)) (path : String) :
    ExceptT Failure m Json := do
  let text ← readFile read path
  match Json.parse text.toUTF8 with
  | .ok j => pure j
  | .error e => throw { message := "Invalid JSON in '" ++ path ++ "'", causes := [e.message] }

end

/-- The resource a render starts from and its assignments make. -/
def buildResource (source : Option String) (assignments : List String) : Except Failure AnyModel := do
  let start ← match source with
    | none => pure (AnyModel.resource {})
    | some text =>
      match AnyModel.fromText .resource text.toUTF8 with
      | .ok r => pure r
      | .error e => throw { message := "Invalid resource JSON", causes := modelChain e }
  assignments.foldlM (fun r text => do
    let a ← (Assignment.parse text).mapError failureOf
    (a.applyTo r).mapError fun e => { message := "Failed to set '" ++ a.path ++ "'", causes := modelChain e })
    start

/-- The rendered body of a resource. -/
def render (r : AnyModel) (mergePatch : Bool) : Rendered :=
  { mergePatch, mutatedFields := r.mutated, body := if mergePatch then r.toMergePatch else r.toJson }

/-- What a command prints on success. -/
def perform {m : Type → Type} [Monad m] (read : String → m (Except String String)) (format : Format) :
    Command → ExceptT Failure m String
  | .render source assignments mergePatch => do
    let text ← match source with
      | some path => some <$> readFile read path
      | none => pure none
    let r ← liftExcept (buildResource text assignments)
    pure ((render r mergePatch).print format)
  | .apply target patch => do
    let doc ← readJsonFile read target
    match Json.parse patch.toUTF8 with
    | .ok p => pure (printDocument (Json.mergePatch doc p) format)
    | .error e => throw { message := "Invalid JSON patch", causes := [e.message] }
  | .diff old new => do
    let a ← readJsonFile read old
    let b ← readJsonFile read new
    pure (printDocument (Json.mergeDiff a b) format)
  | .serve _ _ _ => throw { message := "the serve command is not available here" }
where
  liftExcept {α : Type} : Except Failure α → ExceptT Failure m α
    | .ok v => pure v
    | .error f => throw f

/-- Runs a command: its output and exit code 0, or the report of its failure and exit code 1. -/
def run {m : Type → Type} [Monad m] (read : String → m (Except String String)) (inv : Invocation) :
    m Outcome := do
  match ← (perform read inv.format inv.command).run with
  | .ok out => pure { code := 0, stdout := out }
  | .error f => pure { code := 1, stderr := f.report }

end Cli

end MergePatch
