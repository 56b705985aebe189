import MergePatch.Cli.Grammar
import MergePatch.Cli.Similar

/-!
# Reading the command line

`Cli.parse` reads the arguments of `armpatch` (without the program's name) into a command to run
or into an answer known from the arguments alone: the help, the version, or the refusal of a
misused command line (exit code 2, the message on standard error).

## How words are read

The words are read from the left, one level at a time (`MergePatch.Cli.Grammar`). Before `--` a
word is, in this order of precedence:

* the name of a command below the level: the rest is read at that command's level (`help` instead
  prints the help of the commands named after it);
* `--`: every later word is a value;
* `--name` or `--name=value`: an argument by its long name;
* `-abc`: letters of flags, the last of which may be an option whose value is the rest of the
  word (after an optional `=`);
* the value of an option that waits for one;
* otherwise, the value at the next place.

So an option waiting for its value never takes a word that starts with `-`: that word is read as
an argument itself and the option is left without a value.

An argument's values are checked when the argument is settled: when the next argument or place
starts, or at the end of its level. A command's level is read to its end and checked before the
program's own level is settled, so a fault among the command's words is found before a bad value
of an option given before the command's name.

When a word names nothing, the refusal suggests a similar name (`MergePatch.Cli.Similar`), and its
usage line shows the arguments given so far with the suggested one.

The format option may be given on both levels; the command's level wins over the program's, and
`human` is used when neither has it.
-/

namespace MergePatch

namespace Cli

/-- A command to run. -/
inductive Command where
  /-- Render a resource as a full or merge-patch request body. -/
  | render (source : Option String) (assignments : List String) (mergePatch : Bool)
  /-- Apply a merge patch to a document. -/
  | apply (target patch : String)
  /-- Print the merge patch that turns one document into another. -/
  | diff (old new : String)
  /-- Start the mock service. -/
  | serve (config host : Option String) (port : Option Nat)
deriving Repr, Inhabited

/-- A command and the format of its output. -/
structure Invocation where
  format : Format := .human
  command : Command
deriving Repr, Inhabited

/-- What a command line asks for: a command to run, or an answer known from the arguments
alone (the version, help, or a usage error). -/
inductive Request where
  | run (inv : Invocation)
  | reply (code : Nat) (stdout stderr : String)
deriving Repr, Inhabited

/-! ## Refusals -/

/-- The refusal of a command line: the message, the tips below it, and the usage line if any. -/
def refusal (message : String) (tips : List String) (usage : Option String) : Request :=
  .reply 2 "" ("error: " ++ message ++
    (if tips.isEmpty then "" else "\n" ++ String.join (tips.map ("\n  tip: " ++ ·))) ++
    (match usage with
     | some u => "\n\nUsage: " ++ u
     | none => "") ++
    "\n\nFor more information, try '--help'.\n")

/-- The line listing an argument's possible values, if it has some. -/
def choicesLine (a : Arg) : String :=
  if a.choices.isEmpty then ""
  else "\n  [possible values: " ++ ", ".intercalate (a.choices.map (·.1)) ++ "]"

/-- The refusal of an argument given without a value, or with an empty one where that is not a
value. -/
def emptyValue (a : Arg) : Request :=
  refusal ("a value is required for '" ++ a.display ++ "' but none was supplied" ++ choicesLine a)
    [] none

/-- The refusal of a value that is not one of the argument's possible values. -/
def invalidChoice (a : Arg) (v : String) : Request :=
  if v.isEmpty then emptyValue a
  else
    refusal ("invalid value '" ++ v ++ "' for '" ++ a.display ++ "'" ++ choicesLine a)
      ((mostSimilar v (a.choices.map (·.1))).toList.map fun c => "a similar value exists: '" ++ c ++ "'")
      none

/-- The refusal of a value that does not read as the argument's kind, with the reason. -/
def invalidValue (a : Arg) (shown reason : String) : Request :=
  refusal ("invalid value '" ++ shown ++ "' for '" ++ a.display ++ "': " ++ reason) [] none

/-- The refusal of an argument given a second time. -/
def usedTwice (l : Level) (a : Arg) : Request :=
  refusal ("the argument '" ++ a.display ++ "' cannot be used multiple times") [] (some l.usage)

/-- The refusal of a value attached to a flag; `used` are the arguments the usage line shows. -/
def extraValue (l : Level) (a : Arg) (v : String) (used : List String) : Request :=
  refusal ("unexpected value '" ++ v ++ "' for '" ++ a.display ++ "' found; no more were expected")
    [] (some (l.usageWith used))

/-- The refusal of a level left without a command. -/
def missingCommand (l : Level) : Request :=
  refusal ("'" ++ programName ++ "' requires a subcommand but one was not provided\n  [subcommands: " ++
    ", ".intercalate (l.commands.map (·.1)) ++ "]") [] (some l.usage)

/-! ## Values -/

/-- Reads decimal digits after a sign into a magnitude that fits a signed 64-bit number: at most
`2^63 - 1`, or `2^63` when `negative`. The first fault met from the left is the one reported. -/
def readDigits (negative : Bool) : List Char → Nat → Except String Nat
  | [], n => .ok n
  | c :: rest, n =>
    if c.isDigit then
      let n := n * 10 + (c.toNat - '0'.toNat)
      if negative && Nat.pow 2 63 < n then .error "number too small to fit in target type"
      else if !negative && Nat.pow 2 63 ≤ n then .error "number too large to fit in target type"
      else readDigits negative rest n
    else .error "invalid digit found in string"

/-- Reads a signed 64-bit number: an optional `+` or `-`, then decimal digits. -/
def readInteger (s : String) : Except String Int :=
  match s.toList with
  | [] => .error "cannot parse integer from empty string"
  | ['+'] | ['-'] => .error "invalid digit found in string"
  | '+' :: ds => (readDigits false ds 0).map Int.ofNat
  | '-' :: ds => (readDigits true ds 0).map fun n => -(Int.ofNat n)
  | ds => (readDigits false ds 0).map Int.ofNat

/-- Reads a port number: a 64-bit number from 0 to 65535. A refusal gives the value as the message
shows it and the reason. -/
def readPort (s : String) : Except (String × String) Nat :=
  match readInteger s with
  | .error reason => .error (s, reason)
  | .ok n =>
    if 0 ≤ n && n ≤ 65535 then .ok n.toNat
    else .error (toString n, toString n ++ " is not in 0..=65535")

/-- The refusal of a value that does not suit its argument, if it does not. -/
def valueProblem (a : Arg) (v : String) : Option Request :=
  match a.kind with
  | .path => if v.isEmpty then some (emptyValue a) else none
  | .text => none
  | .format => if (readFormat v).isSome then none else some (invalidChoice a v)
  | .port =>
    match readPort v with
    | .ok _ => none
    | .error (shown, reason) => some (invalidValue a shown reason)

/-! ## The reader -/

/-- The values given to a level's arguments, under their names, in the order the arguments were
first given. A flag is there with no values. -/
abbrev Given := List (String × List String)

/-- Whether the argument was given. -/
def Given.has (g : Given) (id : String) : Bool := g.any (·.1 == id)

/-- The values given to an argument, in order. -/
def Given.values (g : Given) (id : String) : List String := (g.filter (·.1 == id)).flatMap (·.2)

/-- The first value given to an argument. -/
def Given.value? (g : Given) (id : String) : Option String := (g.values id).head?

/-- Adds values to an argument, giving it an entry if it has none. -/
def Given.add (g : Given) (id : String) (vs : List String) : Given :=
  if g.has id then g.map fun (k, old) => if k == id then (k, old ++ vs) else (k, old)
  else g ++ [(id, vs)]

/-- Records an argument with its values: refuses a missing value and a second use of an argument
that may be given once; otherwise the argument is given, and its values are kept if each suits it.
The given arguments after a refusal are returned too: a second use takes the argument out, and a
value that does not suit leaves the argument given without it. -/
def record (l : Level) (g : Given) (a : Arg) (vs : List String) : Given × Option Request :=
  if a.takesValue && vs.isEmpty then (g, some (emptyValue a))
  else if !a.repeatable && g.has a.id then (g.filter (·.1 != a.id), some (usedTwice l a))
  else
    let g := g.add a.id []
    match vs.findSome? (valueProblem a) with
    | some e => (g, some e)
    | none => (g.add a.id vs, none)

/-- The state of reading a level's words. -/
structure Reader where
  given : Given := []
  /-- The argument whose values are being collected, and those collected so far. -/
  pending : Option (Arg × List String) := none
  /-- Whether the pending argument is an option that still waits for its value. -/
  waiting : Bool := false
  /-- How many places have been filled. -/
  placed : Nat := 0
  /-- Whether `--` has been read. -/
  escaped : Bool := false
deriving Inhabited

/-- Settles the pending argument, if any, giving the refusal of its values if there is one. -/
def Reader.settle (l : Level) (r : Reader) : Reader × Option Request :=
  match r.pending with
  | none => (r, none)
  | some (a, vs) =>
    let (g, e) := record l r.given a vs
    ({ r with given := g, pending := none, waiting := false }, e)

/-- Settles the pending argument, failing on the refusal of its values. -/
def Reader.settled (l : Level) (r : Reader) : Except Request Reader :=
  match r.settle l with
  | (r, none) => .ok r
  | (_, some e) => .error e

/-- Settles the pending argument, then records `a` with the values `vs`. -/
def Reader.take (l : Level) (r : Reader) (a : Arg) (vs : List String) : Except Request Reader := do
  let r ← r.settled l
  match record l r.given a vs with
  | (g, none) => .ok { r with given := g }
  | (_, some e) => .error e

/-- Settles the pending argument and makes `a` wait for its value. -/
def Reader.await (l : Level) (r : Reader) (a : Arg) : Except Request Reader := do
  let r ← r.settled l
  .ok { r with pending := some (a, []), waiting := true }

/-- Gives the waiting option its value. -/
def Reader.feed (r : Reader) (w : String) : Reader :=
  { r with pending := r.pending.map (fun (a, vs) => (a, vs ++ [w])), waiting := false }

/-- The help of a level, long when asked for and the level has one. -/
def helpReply (l : Level) (long : Bool) : Request := .reply 0 (l.help (long && l.hasLongHelp)) ""

/-- The version, as the level names the program. -/
def versionReply (l : Level) : Request := .reply 0 (l.versionName ++ " " ++ version ++ "\n") ""

/-- The answer to `help` followed by command names: the long help of the level they lead to. -/
def helpFor (l : Level) : List String → Request
  | [] => helpReply l true
  | n :: more =>
    match l.below n with
    | some sub => helpFor sub more
    | none => refusal ("unrecognized subcommand '" ++ n ++ "'") [] (some l.usage)

/-- The tip that a word may be passed as a value after `--`, for a level with places. -/
def escapeTip (l : Level) (word : String) : List String :=
  if l.positionals.isEmpty then [] else ["to pass '" ++ word ++ "' as a value, use '-- " ++ word ++ "'"]

/-- The refusal of a long name that names no argument of the level. The most similar long name of
the level is suggested; failing that, one of a command below whose name comes later among `rest`
(the nearest such command). -/
def unknownLong (l : Level) (r : Reader) (name : String) (rest : List String) : Request :=
  let word := "--" ++ name
  let message := "unexpected argument '" ++ word ++ "' found"
  let used := r.given.map (·.1)
  match mostSimilar name l.longs with
  | some c =>
    let used := match l.findLong c with
      | some a => if used.contains a.id then used else used ++ [a.id]
      | none => used
    refusal message ["a similar argument exists: '--" ++ c ++ "'"] (some (l.usageWith used))
  | none =>
    let below := l.commands.filterMap fun (n, _) =>
      (l.below n).bind fun sub =>
        (mostSimilar name sub.longs).bind fun c => (rest.findIdx? (· == n)).map fun i => (i, n, c)
    let nearest := below.foldl (fun best e => match best with
      | some b => if e.1 < b.1 then some e else some b
      | none => some e) none
    match nearest with
    | some (_, n, c) => refusal message ["'" ++ n ++ " --" ++ c ++ "' exists"] (some (l.usageWith used))
    | none => refusal message (escapeTip l word) (some (l.usageWith used))

/-- The refusal of a letter that names no argument of the level. -/
def unknownShort (l : Level) (c : Char) : Request :=
  let word := "-" ++ String.singleton c
  refusal ("unexpected argument '" ++ word ++ "' found") (escapeTip l word) (some l.usage)

/-- The refusal of a word that has no place: a command name after `--`, a word like a command's
name, or any other. -/
def strayWord (l : Level) (r : Reader) (w : String) : Request :=
  if r.escaped && l.commands.any (·.1 == w) then
    refusal "unexpected argument '--' found"
      ["subcommand '" ++ w ++ "' exists; to use it, remove the '--' before it"] (some l.usage)
  else if l.commands.isEmpty then refusal ("unexpected argument '" ++ w ++ "' found") [] (some l.usage)
  else
    let message := "unrecognized subcommand '" ++ w ++ "'"
    let quoted (c : String) := "'" ++ c ++ "'"
    match similar w (l.commands.map (·.1)) with
    | [] =>
      if l.positionals.isEmpty then refusal message [] (some l.usage)
      else refusal ("unexpected argument '" ++ w ++ "' found") [] (some l.usage)
    | [c] => refusal message ["a similar subcommand exists: " ++ quoted c] (some l.usage)
    | cs => refusal message ["some similar subcommands exist: " ++ ", ".intercalate (cs.map quoted)]
        (some l.usage)

/-- Puts a word at the level's next place. -/
def placeWord (l : Level) (r : Reader) (w : String) : Except Request Reader :=
  match l.positionals[r.placed]? with
  | some a => do
    let r ← r.settled l
    .ok { r with pending := some (a, [w]), placed := r.placed + 1 }
  | none => .error (strayWord l (r.settle l).1 w)

/-- Reads `--name` or `--name=value` (given without its dashes); `rest` are the words after it. -/
def readLong (l : Level) (r : Reader) (body : String) (rest : List String) :
    Except Request Reader :=
  let (name, attached) := match body.splitOn "=" with
    | n :: v :: more => (n, some ("=".intercalate (v :: more)))
    | _ => (body, none)
  match l.findLong name, attached with
  | none, _ => .error (unknownLong l (r.settle l).1 name rest)
  | some a, some v =>
    if a.takesValue then r.take l a [v]
    else
      let used := (r.given.filter fun (k, _) => !((l.find k).map (·.required)).getD false).map (·.1)
      .error (extraValue l a v (used ++ [a.id]))
  | some a, none =>
    match a.shape with
    | .help => do let _ ← r.settled l; .error (helpReply l true)
    | .version => do let _ ← r.settled l; .error (versionReply l)
    | .flag => r.take l a []
    | _ => r.await l a

/-- Reads the letters of `-abc`. -/
def readShorts (l : Level) (r : Reader) : List Char → Except Request Reader
  | [] => .ok r
  | c :: more =>
    match l.findShort c with
    | none => .error (unknownShort l c)
    | some a =>
      match a.shape with
      | .help => do let _ ← r.settled l; .error (helpReply l false)
      | .version => do let _ ← r.settled l; .error (versionReply l)
      | .flag => do
        let r ← r.take l a []
        readShorts l r more
      | _ =>
        match more with
        | [] => r.await l a
        | '=' :: v => r.take l a [String.ofList v]
        | v => r.take l a [String.ofList v]

/-- Where reading a level's words stopped: at their end, or at the name of a command below the
level, with the words after it. -/
inductive Stop where
  | finished
  | command (name : String) (rest : List String)

/-- Reads a level's words. -/
def walk (l : Level) : List String → Reader → Except Request (Reader × Stop)
  | [], r => .ok (r, .finished)
  | w :: rest, r =>
    if r.escaped then
      match placeWord l r w with
      | .ok r => walk l rest r
      | .error e => .error e
    else if l.commands.any (·.1 == w) then
      if w == "help" then .error (helpFor l rest) else .ok (r, .command w rest)
    else if w == "--" then walk l rest { r with escaped := true }
    else if w.startsWith "--" then
      match readLong l r (String.ofList (w.toList.drop 2)) rest with
      | .ok r => walk l rest r
      | .error e => .error e
    else if w.startsWith "-" && w != "-" then
      match readShorts l r (w.toList.drop 1) with
      | .ok r => walk l rest r
      | .error e => .error e
    else if r.waiting then walk l rest (r.feed w)
    else
      match placeWord l r w with
      | .ok r => walk l rest r
      | .error e => .error e

/-- Ends a level: settles its pending argument, then checks that a command was named where one must
be (a level given nothing at all answers with its short help) and that every required argument was
given. -/
def finish (l : Level) (r : Reader) (chosen : Bool) : Except Request Given := do
  let r ← r.settled l
  if !chosen && !l.commands.isEmpty then
    .error (if r.given.isEmpty then .reply 2 "" (l.help false) else missingCommand l)
  else
    let missing := l.args.filter fun a => a.required && !r.given.has a.id
    let missing := missing.filter (!·.isPositional) ++ missing.filter (·.isPositional)
    if missing.isEmpty then .ok r.given
    else
      .error (refusal ("the following required arguments were not provided:" ++
        String.join (missing.map fun a => "\n  " ++ a.display)) []
        (some (l.usageWith (r.given.map (·.1) ++ missing.map (·.id)))))

/-- The command a command's given arguments make. -/
def commandOf (name : String) (g : Given) : Command :=
  match name with
  | "render" => .render (g.value? "from") (g.values "set") (g.has "merge-patch")
  | "apply" => .apply ((g.value? "target").getD "") ((g.value? "merge").getD "")
  | "diff" => .diff ((g.value? "old").getD "") ((g.value? "new").getD "")
  | _ => .serve (g.value? "config") (g.value? "host") ((g.value? "port").bind fun p => (readPort p).toOption)

/-- The output format: the command's level's, else the program's, else `human`. -/
def chosenFormat (top sub : Given) : Format :=
  (((sub.value? "format").orElse fun _ => top.value? "format").bind readFormat).getD .human

/-- Reads a command line (without the program's name). -/
def parse (words : List String) : Request :=
  match walk topLevel words {} with
  | .error e => e
  | .ok (r, .finished) =>
    match finish topLevel r false with
    | .error e => e
    | .ok _ => missingCommand topLevel
  | .ok (r, .command name rest) =>
    match topLevel.below name with
    | none => missingCommand topLevel
    | some sub =>
      match walk sub rest {} with
      | .error e => e
      | .ok (sr, _) =>
        match finish sub sr true with
        | .error e => e
        | .ok subGiven =>
          match finish topLevel r true with
          | .error e => e
          | .ok topGiven => .run { format := chosenFormat topGiven subGiven, command := commandOf name subGiven }

end Cli

end MergePatch
