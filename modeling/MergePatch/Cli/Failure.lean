import MergePatch.Model.Error
/-!
# Failures of the command line tool

A `Failure` is an error with the chain of errors that caused it, outermost first. The tool
reports it on standard error as `Error: ` and the message; the causes follow under
`Caused by:`, indented by four spaces when there is one and numbered `    0: `, `    1: `, …
when there are more. A cause that spans lines keeps its later lines under its first.
-/

namespace MergePatch

namespace Cli

/-- An error and the errors behind it, outermost first. -/
structure Failure where
  message : String
  causes : List String := []
deriving Repr, Inhabited

namespace Failure

/-- A cause's text, its first line after `head` and its later lines after `rest`. -/
def indented (head rest text : String) : String :=
  match text.splitOn "\n" with
  | [] => head
  | first :: more => head ++ first ++ String.join (more.map fun l => "\n" ++ rest ++ l)

/-- `n` right-aligned in five columns. -/
def number (n : Nat) : String :=
  let s := toString n
  String.ofList (List.replicate (5 - s.length) ' ') ++ s

/-- The report of a failure, as written to standard error. -/
def report (f : Failure) : String :=
  let chain := match f.causes with
    | [] => ""
    | [c] => "\n\nCaused by:\n" ++ indented "    " "    " c
    | cs => "\n\nCaused by:" ++ String.join (cs.zipIdx.map fun (c, n) =>
        "\n" ++ indented (number n ++ ": ") "       " c)
  "Error: " ++ f.message ++ chain ++ "\n"

end Failure

/-- The errors behind a model error: its own words, then the reader's for text that did not
read. -/
def modelChain : ModelError → List String
  | e@(.deserialization r) => [e.message, r.message]
  | e@(.json t) => [e.message, t]
  | e => [e.message]

/-- A model error as a failure of its own. -/
def failureOf (e : ModelError) : Failure :=
  match modelChain e with
  | m :: rest => { message := m, causes := rest }
  | [] => { message := e.message }

end Cli

end MergePatch
