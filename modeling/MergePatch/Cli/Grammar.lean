/-!
# The grammar of the command line

A command line of `armpatch` has two levels: the program's own arguments, then a command's name
and that command's arguments. Each level (`Level`) lists its arguments (`Arg`): flags, options that
take a value, and values standing at a place among the words that are not options. The format
option, `--help` and `--version` belong to every level.

This module holds the levels and the texts made from them: the usage line, the short help
(`-h`) and the long help (`--help`). The reading of a command line is in `MergePatch.Cli.Args`.

## Help layout

A help text is the level's description, its usage line, then up to three sections: the commands
below the level, its arguments that stand at a place, and its options. The options are sorted by
the place they were declared at within their level (the format option first, `--help` and
`--version` last), then by their letter or long name.

In the short help an entry is one line: the name, padded to the longest name of its section, two
spaces and the description, with the default and the possible values after it. In the long help
the description stands on the lines below the name, indented by ten spaces, the possible values
are listed one a line with what each means, and entries are parted by a blank line.
-/

namespace MergePatch

namespace Cli

/-- How results are printed. -/
inductive Format where
  | human
  | json
  | yaml
deriving DecidableEq, Repr, Inhabited

/-- The output formats with their names and what each is, in the order help lists them. -/
def formatChoices : List (String × Format × String) :=
  [("human", .human, "Human-readable output"), ("json", .json, "JSON output"),
   ("yaml", .yaml, "YAML output")]

/-- Reads a format name; names are matched exactly. -/
def readFormat (name : String) : Option Format :=
  (formatChoices.find? (·.1 == name)).map (·.2.1)

/-- What an argument's value must be. -/
inductive ValueKind where
  /-- A file name: any text but the empty one. -/
  | path
  /-- Any text. -/
  | text
  /-- The name of an output format. -/
  | format
  /-- A port number, from 0 to 65535. -/
  | port
deriving DecidableEq, Repr, Inhabited

/-- How an argument is given. -/
inductive ArgShape where
  /-- A flag, given at most once. -/
  | flag
  /-- Asks for the help of the level. -/
  | help
  /-- Asks for the version of the program. -/
  | version
  /-- An option with one value; a `repeated` one may be given again, its values collected. -/
  | option (valueName : String) (kind : ValueKind) (repeated : Bool)
  /-- The value at a place among the words that are not options; `many` takes all the words from
  there on. -/
  | positional (valueName : String) (kind : ValueKind) (many : Bool)
deriving DecidableEq, Repr, Inhabited

/-- An argument of a level. -/
structure Arg where
  /-- The name the argument's values are kept under. -/
  id : String
  long : Option String := none
  short : Option Char := none
  shape : ArgShape
  /-- What the argument is for, as help says it. -/
  about : String
  required : Bool := false
  /-- Where help lists the argument among the level's options (smaller first). -/
  order : Nat := 999
deriving Repr, Inhabited

/-- Whether the argument stands at a place rather than behind a name. -/
def Arg.isPositional (a : Arg) : Bool :=
  match a.shape with
  | .positional .. => true
  | _ => false

/-- Whether the argument takes a value. -/
def Arg.takesValue (a : Arg) : Bool :=
  match a.shape with
  | .option .. | .positional .. => true
  | _ => false

/-- Whether the argument may be given more than once. -/
def Arg.repeatable (a : Arg) : Bool :=
  match a.shape with
  | .option _ _ repeated => repeated
  | .positional _ _ many => many
  | _ => false

/-- What the argument's values must be. -/
def Arg.kind (a : Arg) : ValueKind :=
  match a.shape with
  | .option _ k _ | .positional _ k _ => k
  | _ => .text

/-- How messages and usage lines name an argument: `--set <ASSIGNMENTS>`, `--merge-patch`,
`<OLD>`, `[COMMAND]...`. -/
def Arg.display (a : Arg) : String :=
  let name := match a.long with
    | some l => "--" ++ l
    | none => match a.short with
      | some c => "-" ++ String.singleton c
      | none => ""
  match a.shape with
  | .option v _ _ => name ++ " <" ++ v ++ ">"
  | .positional v _ many =>
    if a.required then "<" ++ v ++ ">" ++ (if many then "..." else "")
    else "[" ++ v ++ "]" ++ (if many then "..." else "")
  | _ => name

/-- How help names an argument: an option's letter (or room for one) before its long name. -/
def Arg.spec (a : Arg) : String :=
  if a.isPositional then a.display
  else
    (match a.short with
     | some c => "-" ++ String.singleton c ++ ", "
     | none => "    ") ++ a.display

/-- The possible values of an argument, with what each means. -/
def Arg.choices (a : Arg) : List (String × String) :=
  if a.kind == .format then formatChoices.map fun (n, _, h) => (n, h) else []

/-- The value an argument takes when it is not given. -/
def Arg.default? (a : Arg) : Option String :=
  if a.kind == .format then some "human" else none

/-- The description of an argument in the short help. -/
def Arg.shortAbout (a : Arg) : String :=
  match a.shape with
  | .help => a.about ++ " (see more with '--help')"
  | _ =>
    let default := match a.default? with
      | some d => " [default: " ++ d ++ "]"
      | none => ""
    let choices := if a.choices.isEmpty then ""
      else " [possible values: " ++ ", ".intercalate (a.choices.map (·.1)) ++ "]"
    a.about ++ default ++ choices

/-- The spaces before a description in the long help. -/
def longIndent : String := "          "

/-- Pads `s` with spaces to `n` characters. -/
def padRight (s : String) (n : Nat) : String := s ++ String.ofList (List.replicate (n - s.length) ' ')

/-- The description of an argument in the long help, its later lines indented. -/
def Arg.longAbout (a : Arg) : String :=
  match a.shape with
  | .help => a.about ++ " (see a summary with '-h')"
  | _ =>
    let width := (a.choices.map (·.1.length)).foldl max 0
    let choices := if a.choices.isEmpty then ""
      else "\n\n" ++ longIndent ++ "Possible values:" ++
        String.join (a.choices.map fun (n, h) =>
          "\n" ++ longIndent ++ "- " ++ n ++ ": " ++ padRight "" (width - n.length) ++ h)
    let default := match a.default? with
      | some d => "\n" ++ longIndent ++ "\n" ++ longIndent ++ "[default: " ++ d ++ "]"
      | none => ""
    a.about ++ choices ++ default

/-- Whether the argument has more to say in the long help than in the short one. -/
def Arg.hasLongHelp (a : Arg) : Bool := !a.choices.isEmpty

/-- The format option, which every level takes. -/
def formatArg : Arg :=
  { id := "format", long := some "format", shape := .option "FORMAT" .format false,
    about := "Output format", order := 0 }

/-- The help flag. -/
def helpArg : Arg :=
  { id := "help", long := some "help", short := some 'h', shape := .help, about := "Print help" }

/-- The version flag. -/
def versionArg : Arg :=
  { id := "version", long := some "version", short := some 'V', shape := .version,
    about := "Print version" }

/-- The arguments every level ends with. -/
def commonArgs : List Arg := [formatArg, helpArg, versionArg]

/-- A level of the command line. -/
structure Level where
  /-- How usage lines start: the program's name, then the command's. -/
  usageName : String
  /-- How `--version` names the level. -/
  versionName : String
  about : String
  /-- The arguments, in the order names are looked up in: the level's own, then the common ones. -/
  args : List Arg
  /-- The commands below the level, with what each does. -/
  commands : List (String × String) := []
deriving Repr, Inhabited

/-- The program's name. -/
def programName : String := "armpatch"

/-- The program's version. -/
def version : String := "0.1.0"

/-- What `help` does, as the list of commands says it. -/
def helpAbout : String := "Print this message or the help of the given subcommand(s)"

/-- The program's own level. -/
def topLevel : Level :=
  { usageName := programName, versionName := programName, about := "Merge-patch resource tooling",
    args := commonArgs,
    commands := [("render", "Render a resource as a request body"),
                 ("apply", "Apply a JSON merge patch to a document"),
                 ("diff", "Print the JSON merge patch that turns OLD into NEW"),
                 ("serve", "Start the mock resource service"),
                 ("help", helpAbout)] }

/-- A command's level, named and described as the program's list of commands has it. -/
def commandLevel (name : String) (args : List Arg) : Level :=
  { usageName := programName ++ " " ++ name, versionName := programName ++ "-" ++ name,
    about := ((topLevel.commands.find? (·.1 == name)).map (·.2)).getD "",
    args := args ++ commonArgs }

/-- The arguments of `render`. -/
def renderLevel : Level := commandLevel "render" [
  { id := "from", long := some "from", shape := .option "FROM" .path false, order := 0,
    about := "Read the starting resource from a JSON file (its fields are not marked mutated)" },
  { id := "set", long := some "set", short := some 's', shape := .option "ASSIGNMENTS" .text true,
    order := 1,
    about := "Field assignments by logical name (key=value, can be specified multiple times)" },
  { id := "merge-patch", long := some "merge-patch", shape := .flag, order := 2,
    about := "Emit only the assigned fields as a JSON merge patch" }]

/-- The arguments of `apply`. -/
def applyLevel : Level := commandLevel "apply" [
  { id := "target", long := some "target", shape := .option "TARGET" .path false, order := 0,
    required := true, about := "Document to patch" },
  { id := "merge", long := some "merge", shape := .option "MERGE" .text false, order := 1,
    required := true, about := "JSON merge patch" }]

/-- The arguments of `diff`. -/
def diffLevel : Level := commandLevel "diff" [
  { id := "old", shape := .positional "OLD" .path false, required := true,
    about := "Original document" },
  { id := "new", shape := .positional "NEW" .path false, required := true,
    about := "Updated document" }]

/-- The arguments of `serve`. -/
def serveLevel : Level := commandLevel "serve" [
  { id := "config", long := some "config", short := some 'c', shape := .option "CONFIG" .path false,
    order := 0, about := "YAML configuration file" },
  { id := "host", long := some "host", shape := .option "HOST" .text false, order := 1,
    about := "Host to bind to (overrides the config)" },
  { id := "port", long := some "port", short := some 'p', shape := .option "PORT" .port false,
    order := 2, about := "Port to listen on (overrides the config)" }]

/-- The level of `help`, which only names commands. -/
def helpLevel : Level :=
  { usageName := programName ++ " help", versionName := programName ++ "-help", about := helpAbout,
    args := [{ id := "command", shape := .positional "COMMAND" .text true,
               about := "Print help for the subcommand(s)" }] }

/-- The level of a command below the given one. -/
def Level.below (l : Level) (name : String) : Option Level :=
  if l.commands.any (·.1 == name) then
    match name with
    | "render" => some renderLevel
    | "apply" => some applyLevel
    | "diff" => some diffLevel
    | "serve" => some serveLevel
    | "help" => some helpLevel
    | _ => none
  else none

/-- The argument with this long name. -/
def Level.findLong (l : Level) (name : String) : Option Arg := l.args.find? (·.long == some name)

/-- The argument with this letter. -/
def Level.findShort (l : Level) (c : Char) : Option Arg := l.args.find? (·.short == some c)

/-- The argument kept under this name. -/
def Level.find (l : Level) (id : String) : Option Arg := l.args.find? (·.id == id)

/-- The long names of a level's arguments, in lookup order. -/
def Level.longs (l : Level) : List String := l.args.filterMap (·.long)

/-- The arguments standing at a place, in order. -/
def Level.positionals (l : Level) : List Arg := l.args.filter (·.isPositional)

/-- The arguments given by name. -/
def Level.options (l : Level) : List Arg := l.args.filter (!·.isPositional)

/-- Whether the long help says more than the short one. -/
def Level.hasLongHelp (l : Level) : Bool := l.args.any (·.hasLongHelp)

/-- The usage line: the name, `[OPTIONS]` when some option may be left out, the required options,
the places, and `<COMMAND>` when a command must follow. -/
def Level.usage (l : Level) : String :=
  " ".intercalate ([l.usageName] ++
    (if l.options.any (!·.required) then ["[OPTIONS]"] else []) ++
    (l.options.filter (·.required)).map Arg.display ++
    l.positionals.map Arg.display ++
    (if l.commands.isEmpty then [] else ["<COMMAND>"]))

/-- Keeps the first copy of each name. -/
def firstOccurrences (names : List String) : List String :=
  names.foldl (fun kept n => if kept.contains n then kept else kept ++ [n]) []

/-- The usage line naming the given arguments: the required arguments and the `used` ones, the
options in that order, then the places in theirs, and `<COMMAND>` when a command must follow.
Without used arguments it is the plain usage line. -/
def Level.usageWith (l : Level) (used : List String) : String :=
  if used.isEmpty then l.usage
  else
    let wanted := firstOccurrences ((l.args.filter (·.required)).map (·.id) ++ used)
    let options := (wanted.filterMap l.find).filter (!·.isPositional)
    let places := l.positionals.filter fun a => wanted.contains a.id
    " ".intercalate ([l.usageName] ++ options.map Arg.display ++ places.map Arg.display ++
      (if l.commands.isEmpty then [] else ["<COMMAND>"]))

/-- The key help sorts an option by: its letter in lower case marked by its case, or its long
name. -/
def Arg.sortName (a : Arg) : String :=
  match a.short with
  | some c => String.singleton c.toLower ++ (if c.isLower then "0" else "1")
  | none => a.long.getD a.id

/-- Whether help lists `a` before `b`. -/
def Arg.listedBefore (a b : Arg) : Bool :=
  a.order < b.order || (a.order == b.order && decide (a.sortName < b.sortName))

/-- Puts an option into a list sorted for help. -/
def insertListed (a : Arg) : List Arg → List Arg
  | [] => [a]
  | b :: rest => if a.listedBefore b then a :: b :: rest else b :: insertListed a rest

/-- A level's options in the order help lists them. -/
def Level.listedOptions (l : Level) : List Arg := l.options.foldr insertListed []

/-- The entries of a section of help, each a name and a description. -/
def helpSection (title : String) (long : Bool) (entries : List (String × String)) : String :=
  let width := (entries.map (·.1.length)).foldl max 0
  title ++ ":\n" ++
    (if long then "\n\n".intercalate (entries.map fun (n, d) => "  " ++ n ++ "\n" ++ longIndent ++ d)
     else "\n".intercalate (entries.map fun (n, d) => "  " ++ padRight n width ++ "  " ++ d))

/-- A level's help, long or short. -/
def Level.help (l : Level) (long : Bool) : String :=
  let about (a : Arg) := if long then a.longAbout else a.shortAbout
  let commands := if l.commands.isEmpty then [] else [helpSection "Commands" false l.commands]
  let places := if l.positionals.isEmpty then []
    else [helpSection "Arguments" long (l.positionals.map fun a => (a.spec, about a))]
  let options := if l.options.isEmpty then []
    else [helpSection "Options" long (l.listedOptions.map fun a => (a.spec, about a))]
  l.about ++ "\n\nUsage: " ++ l.usage ++ "\n\n" ++ "\n\n".intercalate (commands ++ places ++ options) ++
    "\n"

end Cli

end MergePatch
