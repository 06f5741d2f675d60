import Funlet.Command.Arguments
import Funlet.Command.Job
import Funlet.Session

/-!
# Runs of the program

What the program does with its arguments, given the files around it and what is typed.  Without a
source it holds a session; with one it does a job.
-/

set_option autoImplicit false

namespace Funlet

inductive Ending where
  | returned (status : Nat)
  | exited (status : Nat)
  | broken (error : JobError)
  deriving DecidableEq

structure RunReport where
  ending : Ending
  printed : String
  complaints : String
  files : FileTree

inductive Plan where
  | stop (printed complaints : String) (status : Nat)
  | session (settings : Settings) (verbose : Bool)
  | job (job : Job) (verbose : Bool)

namespace Run

/-- The job that options with a source ask for.  An indentation of zero means a single line. -/
def jobOf (options : Options) (source : String) : Job where
  source := source
  isText := options.isText
  format := options.format
  out := options.out
  indent := if options.indent = some 0 then none else options.indent
  strict := options.strict
  tokens := options.tokens

/-- The settings of the session that options ask for.  A format without a name is called by a pair
of brackets, which is no format. -/
def settingsOf (options : Options) : Settings :=
  ⟨options.format.getD "[]", options.strict, options.verbose⟩

/-- What the arguments ask for.  Without any arguments a session is held in the standard
settings. -/
def plan (arguments : List String) : Plan :=
  if arguments.isEmpty then .session .initial false
  else
    match Arguments.read arguments with
    | .error .help => .stop Arguments.help "" 0
    | .error (.refused error) => .stop "" (Arguments.refusal error) 2
    | .ok options =>
      match options.source with
      | some source =>
        if options.repl then .session (settingsOf options) options.verbose
        else .job (jobOf options source) options.verbose
      | none => .session (settingsOf options) options.verbose

def log (verbose : Bool) (notes : List Note) : String :=
  if verbose then String.join (notes.map fun note => note.line ++ "\n") else ""

def complaint (error : JobError) : String := "[error] >>> " ++ error.message ++ "\n"

def conclusion : Except JobError String → Ending × String
  | .ok _ => (.returned 0, "")
  | .error error =>
    match error.status? with
    | some status => (.returned status, complaint error)
    | none => (.broken error, "")

def ofJob (verbose : Bool) (report : JobReport) : RunReport :=
  let (ending, complaints) := conclusion report.result
  ⟨ending, report.printed, log verbose report.notes ++ complaints, report.files⟩

def ofSession [Host] (verbose : Bool) (settings : Settings) (inputs : List Input)
    (files : FileTree) : RunReport :=
  let exchanges := (Session.transcript settings inputs).exchanges
  ⟨.returned 0,
    Session.banner settings ++
      String.join (exchanges.map fun exchange => exchange.prompt ++ exchange.output),
    String.join (exchanges.map fun exchange => log verbose exchange.notes), files⟩

def report [Host] (arguments : List String) (inputs : List Input) (files : FileTree) : RunReport :=
  match plan arguments with
  | .stop printed complaints status => ⟨.exited status, printed, complaints, files⟩
  | .session settings verbose => ofSession verbose settings inputs files
  | .job job verbose => ofJob verbose (job.run files)

end Run

end Funlet
