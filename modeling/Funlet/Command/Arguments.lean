import Funlet.Number.Numeral
import Funlet.Text.Quoted

/-!
# Command-line arguments

The options of the program and how arguments are told apart.  A long option may be shortened as long
as it stays unique and may carry its value after an equals sign; short options may be joined, the
last one with its value.  Everything that is no option is a source, of which there is at most one;
after two dashes nothing is an option.
-/

set_option autoImplicit false

namespace Funlet

inductive Switch where
  | help
  | string
  | format
  | out
  | indent
  | strict
  | tokens
  | repl
  | verbose
  deriving DecidableEq

namespace Switch

def spellings : List (String × Switch) :=
  [("-h", .help), ("--help", .help), ("-s", .string), ("--string", .string), ("-f", .format),
    ("--format", .format), ("-o", .out), ("--out", .out), ("--indent", .indent),
    ("--strict", .strict), ("--tokens", .tokens), ("--repl", .repl), ("--verbose", .verbose)]

def ofSpelling? (spelling : String) : Option Switch :=
  match spellings.find? (fun entry => entry.1 == spelling) with
  | some entry => some entry.2
  | none => none

def title (switch : Switch) : String :=
  "/".intercalate ((spellings.filter fun entry => entry.2 == switch).map fun entry => entry.1)

def takesValue : Switch → Bool
  | .format => true
  | .out => true
  | .indent => true
  | _ => false

end Switch

structure Options where
  source : Option String
  isText : Bool
  /-- The name of the format; none if a format was asked for without a name. -/
  format : Option String
  out : Option String
  indent : Option Int
  strict : Bool
  tokens : Bool
  repl : Bool
  verbose : Bool

def Options.standard : Options where
  source := none
  isText := false
  format := some "json"
  out := none
  indent := some 2
  strict := false
  tokens := false
  repl := false
  verbose := false

inductive ArgumentError where
  | ambiguous (argument : String) (candidates : List String)
  | valueMissing (switch : Switch)
  | valueIgnored (switch : Switch) (value : String)
  | notInteger (switch : Switch) (value : String)
  | notChoice (switch : Switch) (value : String) (choices : List String)
  | unrecognized (arguments : List String)

namespace ArgumentError

def about (switch : Switch) (text : String) : String :=
  "argument " ++ switch.title ++ ": " ++ text

def message : ArgumentError → String
  | .ambiguous argument candidates =>
    "ambiguous option: " ++ argument ++ " could match " ++ ", ".intercalate candidates
  | .valueMissing switch => about switch "expected one argument"
  | .valueIgnored switch value =>
    about switch ("ignored explicit argument " ++ Text.quoted value)
  | .notInteger switch value => about switch ("invalid int value: " ++ Text.quoted value)
  | .notChoice switch value choices =>
    about switch ("invalid choice: " ++ Text.quoted value ++ " (choose from " ++
      ", ".intercalate (choices.map Text.quoted) ++ ")")
  | .unrecognized arguments => "unrecognized arguments: " ++ " ".intercalate arguments

end ArgumentError

namespace Arguments

/-! ## Telling arguments apart -/

inductive Role where
  /-- A source, or the value of the option before it. -/
  | plain (text : String)
  | divider
  /-- An option; characters may be attached to it. -/
  | option (switch : Switch) (short : Bool) (attached : Option (List Char))
  /-- What looks like an option and is none. -/
  | unknown (text : String)

def isNegativeNumber (text : List Char) : Bool :=
  match text with
  | '-' :: body =>
    let isDigit (c : Char) : Bool := (Text.digitValue? c).isSome
    let body := if body.getLast? = some '\n' then body.dropLast else body
    match body.dropWhile isDigit with
    | [] => !body.isEmpty
    | '.' :: fraction => !fraction.isEmpty && fraction.all isDigit
    | _ => false
  | _ => false

def splitAtEquals (text : List Char) : List Char × Option (List Char) :=
  match text.dropWhile (· != '=') with
  | _ :: value => (text.takeWhile (· != '='), some value)
  | [] => (text, none)

def isLong (text : List Char) : Bool :=
  ['-', '-'].isPrefixOf text

/-- The role of an argument that begins with a dash and is neither an option nor the beginning of
one: negative numbers and texts with a space are taken for sources. -/
def leftOver (argument : String) : Role :=
  let text := argument.toList
  if isNegativeNumber text || text.contains ' ' then .plain argument else .unknown argument

def abbreviation (argument : String) : Except ArgumentError Role :=
  let text := argument.toList
  let (stem, value) := splitAtEquals text
  match value, Switch.ofSpelling? (String.ofList stem) with
  | some value, some switch =>
    .ok (.option switch (!isLong text) (some value))
  | _, _ =>
    if isLong text then
      match Switch.spellings.filter fun entry => stem.isPrefixOf entry.1.toList with
      | [] => .ok (leftOver argument)
      | [entry] => .ok (.option entry.2 false value)
      | several => .error (.ambiguous argument (several.map fun entry => entry.1))
    else
      match Switch.ofSpelling? (String.ofList (text.take 2)) with
      | some switch => .ok (.option switch true (some (text.drop 2)))
      | none => .ok (leftOver argument)

def role (argument : String) : Except ArgumentError Role :=
  match argument.toList with
  | [] => .ok (.plain argument)
  | ['-'] => .ok (.plain argument)
  | '-' :: _ =>
    match Switch.ofSpelling? argument with
    | some switch => .ok (.option switch (!isLong argument.toList) none)
    | none => abbreviation argument
  | _ => .ok (.plain argument)

def roles : List String → Except ArgumentError (List Role)
  | [] => .ok []
  | "--" :: rest => .ok (.divider :: rest.map .plain)
  | argument :: rest => do
    let first ← role argument
    let others ← roles rest
    return first :: others

/-! ## Options and their values -/

/-- What one argument with options comes to: the options with their values in order, and the option
at its end that takes its value from the next argument. -/
structure Cluster where
  settled : List (Switch × Option String)
  last : Option Switch

/-- The options joined in one argument: `switch` with the characters attached to it, which are its
value or else, if it is a short option, the letters of further ones. -/
def cluster (switch : Switch) (short : Bool) (attached : List Char) :
    Except ArgumentError Cluster :=
  if switch.takesValue then .ok ⟨[(switch, some (String.ofList attached))], none⟩
  else
    match attached with
    | [] => .error (.valueIgnored switch "")
    | letter :: rest =>
      match if short then Switch.ofSpelling? (String.ofList ['-', letter]) else none with
      | none => .error (.valueIgnored switch (String.ofList attached))
      | some next =>
        if rest.isEmpty then .ok ⟨[(switch, none)], some next⟩
        else
          match cluster next true rest with
          | .error error => .error error
          | .ok others => .ok { others with settled := (switch, none) :: others.settled }

inductive Stop where
  | help
  | refused (error : ArgumentError)

def formats : List String := ["json", "tree", "source"]

/-- The options after one more of them.  Two dashes as an attached value stand for no value. -/
def apply (options : Options) : Switch × Option String → Except Stop Options
  | (.help, _) => .error .help
  | (.string, _) => .ok { options with isText := true }
  | (.format, some "--") => .ok { options with format := none }
  | (.format, value) =>
    let format := value.getD ""
    if formats.contains format then .ok { options with format := some format }
    else .error (.refused (.notChoice .format format formats))
  | (.out, some "--") => .ok { options with out := none }
  | (.out, value) => .ok { options with out := value }
  | (.indent, some "--") => .ok { options with indent := none }
  | (.indent, value) =>
    match Numeral.readInteger? (value.getD "") with
    | some width => .ok { options with indent := some width }
    | none => .error (.refused (.notInteger .indent (value.getD "")))
  | (.strict, _) => .ok { options with strict := true }
  | (.tokens, _) => .ok { options with tokens := true }
  | (.repl, _) => .ok { options with repl := true }
  | (.verbose, _) => .ok { options with verbose := true }

def applyAll (options : Options) : List (Switch × Option String) → Except Stop Options
  | [] => .ok options
  | setting :: rest => do applyAll (← apply options setting) rest

/-! ## Whole argument lists -/

def Role.text : Role → String
  | .plain text => text
  | .unknown text => text
  | .divider => "--"
  | .option _ _ _ => ""

def Role.isOption : Role → Bool
  | .option _ _ _ => true
  | .unknown _ => true
  | _ => false

structure Progress where
  options : Options
  /-- Whether the place of the source has been filled. -/
  placed : Bool
  extras : List String

/-- The progress after the arguments that follow the last option: the first of them is the source,
whichever side of it the divider stands, unless there has been one. -/
def finish (progress : Progress) (roles : List Role) : Progress :=
  let surplus (roles : List Role) : List String := progress.extras ++ roles.map Role.text
  let sourced (source : String) (more : List Role) : Progress :=
    { options := { progress.options with source := some source }, placed := true,
      extras := surplus more }
  if progress.placed then { progress with extras := surplus roles }
  else
    match roles with
    | .divider :: .plain source :: more => sourced source more
    | .plain source :: .divider :: more => sourced source more
    | .plain source :: more => sourced source more
    | .divider :: more => { progress with extras := surplus more }
    | more => { progress with extras := surplus more }

def place (progress : Progress) (text : String) : Progress :=
  if progress.placed then { progress with extras := progress.extras ++ [text] }
  else { progress with options := { progress.options with source := some text }, placed := true }

def readAll (progress : Progress) : List Role → Except Stop Progress
  | [] => .ok progress
  | .option switch short attached :: rest => do
    let joined ←
      match attached with
      | none => .ok (⟨[], some switch⟩ : Cluster)
      | some attached => (cluster switch short attached).mapError .refused
    match joined.last with
    | none =>
      let options ← applyAll progress.options joined.settled
      readAll { progress with options } rest
    | some last =>
      if last.takesValue then
        match rest with
        | .plain value :: more =>
          let options ← applyAll progress.options (joined.settled ++ [(last, some value)])
          readAll { progress with options } more
        | _ => .error (.refused (.valueMissing last))
      else
        let options ← applyAll progress.options (joined.settled ++ [(last, none)])
        readAll { progress with options } rest
  | .unknown text :: rest => readAll { progress with extras := progress.extras ++ [text] } rest
  | .plain text :: rest =>
    if rest.any Role.isOption then readAll (place progress text) rest
    else .ok (finish progress (.plain text :: rest))
  | .divider :: rest => .ok (finish progress (.divider :: rest))

def read (arguments : List String) : Except Stop Options := do
  let roles ← (roles arguments).mapError .refused
  let progress ← readAll ⟨Options.standard, false, []⟩ roles
  if progress.extras.isEmpty then return progress.options
  else throw (.refused (.unrecognized progress.extras))

/-! ## Help -/

def usage : String :=
  "usage: microml [-h] [-s] [-f \x7bjson,tree,source\x7d] [-o OUTFILE]\n" ++
  "               [--indent INDENT] [--strict] [--tokens] [--repl] [--verbose]\n" ++
  "               [source]\n"

def help : String :=
  usage ++
  "\n" ++
  "positional arguments:\n" ++
  "  source                Filename or raw source (with -s)\n" ++
  "\n" ++
  "options:\n" ++
  "  -h, --help            show this help message and exit\n" ++
  "  -s, --string          Interpret source as literal string\n" ++
  "  -f \x7bjson,tree,source\x7d, --format \x7bjson,tree,source\x7d\n" ++
  "                        Output format (default: json)\n" ++
  "  -o OUTFILE, --out OUTFILE\n" ++
  "                        Output to file\n" ++
  "  --indent INDENT       JSON indentation; 0 prints a single line (default: 2)\n" ++
  "  --strict              Reject tokens left over after the expression\n" ++
  "  --tokens              Print the token stream instead of the AST\n" ++
  "  --repl                Launch interactive REPL instead of parsing\n" ++
  "  --verbose             Debug logging; token echo in the REPL\n"

def refusal (error : ArgumentError) : String :=
  usage ++ "microml: error: " ++ error.message ++ "\n"

end Arguments

end Funlet
