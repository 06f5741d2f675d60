import Funlet.Data.Json
import Funlet.Expr.Outline
import Funlet.Expr.Record
import Funlet.Text.Lowercase

/-!
# Reports

The three formats in which a tree is reported, chosen by name: JSON, text tree and source.
-/

set_option autoImplicit false

namespace Funlet

def formatNames : List String := ["json", "tree", "source"]

inductive ReportError where
  | unknownFormat (name : String)
  | json (cause : JsonError)
  | noRecord
  | source (cause : SourceError)
  | drawing (cause : HoleError)
  deriving DecidableEq

namespace ReportError

def kind : ReportError → String
  | .unknownFormat _ => "ValueError"
  | .json .indentUnfit => "OverflowError"
  | .json .indentTooWide => "MemoryError"
  | .json _ => "ValueError"
  | .noRecord => "TypeError"
  | .source .hole => "NotImplementedError"
  | .source (.number .tooLarge) => "OverflowError"
  | .source _ => "ValueError"
  | .drawing _ => "NotImplementedError"

/-- Whether an error comes from a value without a text, which whoever asks for a report has to
expect; the others come from a limit of the machine or from a tree that is not complete. -/
def isRefusal : ReportError → Bool
  | .unknownFormat _ => true
  | .json .indentUnfit => false
  | .json .indentTooWide => false
  | .json _ => true
  | .noRecord => false
  | .source .hole => false
  | .source (.number .tooLarge) => false
  | .source _ => true
  | .drawing _ => false

def message : ReportError → String
  | .unknownFormat name =>
    "Unknown output format: " ++ Text.quoted name ++ " (choose from " ++
      ", ".intercalate formatNames ++ ")"
  | .json cause => cause.message
  | .noRecord => "must be called with a dataclass type or instance"
  | .source cause => cause.message
  | .drawing cause => cause.message

end ReportError

namespace Expr

def json [Host] {Text : Type} [Wording Text] (indent : Option Int) (tree : Expr Text) :
    Except ReportError String :=
  match tree.toData with
  | none => .error .noRecord
  | some data =>
    match data.json indent with
    | .ok text => .ok text
    | .error cause => .error (.json cause)

/-- The report of a tree in the format with a name, in which case does not matter.  The indentation
is that of JSON. -/
def report [Host] (format : String) (indent : Option Int) (tree : Expr) :
    Except ReportError String :=
  match Text.lowercase format with
  | "json" => tree.json indent
  | "tree" =>
    match tree.textTree with
    | .ok text => .ok text
    | .error cause => .error (.drawing cause)
  | "source" =>
    match tree.source with
    | .ok text => .ok text
    | .error cause => .error (.source cause)
  | other => .error (.unknownFormat other)

end Expr

end Funlet
