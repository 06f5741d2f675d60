import Funlet.Command.FileTree
import Funlet.Expr.Report
import Funlet.Grammar.Program
import Funlet.Text.Utf8

/-!
# Jobs

A job reads one program from a file or from the command line and reports it, on the standard output
or into a file.  It either does all of this or changes nothing and prints nothing; the standard
output takes every text.
-/

set_option autoImplicit false

namespace Funlet

structure Job where
  source : String
  isText : Bool
  format : Option String
  out : Option String
  indent : Option Int
  strict : Bool
  /-- Whether the tokens are wanted in place of the tree. -/
  tokens : Bool

inductive JobError where
  | wrongExtension
  | file (error : FileError)
  | encoding (fault : Text.Utf8Fault)
  | program (error : ProgramError)
  | report (error : ReportError)
  /-- A report is due and its format has no name. -/
  | namelessFormat
  deriving DecidableEq

namespace JobError

def message : JobError → String
  | .wrongExtension => "Only .ml files are supported."
  | .file error => error.message
  | .encoding fault => fault.message
  | .program error => error.message
  | .report error => error.message
  | .namelessFormat => "'list' object has no attribute 'lower'"

/-- The exit status of an error that is foreseen: one for a text that is no program, two for what
cannot be opened, read or shown.  The other errors have none and break a run off. -/
def status? : JobError → Option Nat
  | .program (.stray _) => some 1
  | .program (.grammar (.mismatch _)) => some 1
  | .program (.grammar (.unreadable _)) => some 2
  | .wrongExtension => some 2
  | .file _ => some 2
  | .encoding _ => some 2
  | .report error => if error.isRefusal then some 2 else none
  | .namelessFormat => none

end JobError

structure JobReport where
  result : Except JobError String
  printed : String
  notes : List Note
  files : FileTree

namespace Job

def isSourcePath (path : String) : Bool :=
  ".ml".toList.isSuffixOf path.toList

def text (job : Job) (read : String → Except FileError (List UInt8)) : Except JobError String :=
  if job.isText then .ok job.source
  else if !isSourcePath job.source then .error .wrongExtension
  else
    match read job.source with
    | .error error => .error (.file error)
    | .ok bytes =>
      match Text.ofUtf8 (bytes.map UInt8.toNat) with
      | .error fault => .error (.encoding fault)
      | .ok text => .ok (String.ofList (Text.unifyLineEnds text.toList))

def openingNotes (job : Job) : List Note :=
  if job.isText || !isSourcePath job.source then [] else [.opening job.source]

def rendered [Host] (job : Job) (text : String) : Noted (Except JobError String) :=
  match tokenize text with
  | .error stray => ⟨.error (.program (.stray stray)), []⟩
  | .ok tokens =>
    let counted := Note.counted tokens.length
    if job.tokens then ⟨.ok (Token.listing tokens), [counted]⟩
    else
      let read := Program.ofTokensNoted job.strict tokens
      match read.outcome with
      | .error error => ⟨.error (.program (.grammar error)), counted :: read.notes⟩
      | .ok tree =>
        let notes := counted :: read.notes ++ [.rooted tree.tag]
        match job.format with
        | none => ⟨.error .namelessFormat, notes⟩
        | some format =>
          match tree.report format job.indent with
          | .ok report => ⟨.ok report, notes⟩
          | .error error => ⟨.error (.report error), notes⟩

def prepare [Host] (job : Job) (read : String → Except FileError (List UInt8)) :
    Noted (Except JobError String) :=
  match job.text read with
  | .error error => ⟨.error error, job.openingNotes⟩
  | .ok text =>
    let report := job.rendered text
    ⟨report.outcome, job.openingNotes ++ report.notes⟩

/-- The file that the result goes to; an empty path means none. -/
def target (job : Job) : Option String :=
  match job.out with
  | some "" => none
  | out => out

def fileBytes (result : String) : List UInt8 :=
  (result ++ "\n").toUTF8.toList

def receipt (path : String) : String := "(wrote to " ++ path ++ ")\n"

def run [Host] (job : Job) (files : FileTree) : JobReport :=
  let prepared := job.prepare files.read
  match prepared.outcome with
  | .error error => ⟨.error error, "", prepared.notes, files⟩
  | .ok result =>
    match job.target with
    | none => ⟨.ok result, result ++ "\n", prepared.notes, files⟩
    | some path =>
      match files.write path (fileBytes result) with
      | .error error => ⟨.error (.file error), "", prepared.notes, files⟩
      | .ok written => ⟨.ok result, receipt path, prepared.notes, written⟩

end Job

end Funlet
