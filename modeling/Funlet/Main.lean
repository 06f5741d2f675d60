import Funlet.Command.Run

/-!
# The program

The outer layer: it reads files and lines, prints, and sets the exit status.  What to do, and what
to print, is decided by the plan of a run, by jobs and by sessions.
-/

set_option autoImplicit false

namespace Funlet.Main

def fileError (path : String) : IO.Error → FileError
  | .inappropriateType _ 21 _ => .isFolder path
  | .inappropriateType _ _ _ => .notFolder path
  | .permissionDenied _ _ _ => .denied path
  | _ => .notFound path

def put (text : String) : IO Unit := do
  let output ← IO.getStdout
  output.putStr text
  output.flush

def complain (text : String) : IO Unit := do
  (← IO.getStderr).putStr text

def typed (line : String) : Input :=
  .line (if line.endsWith "\n" then String.ofList line.toList.dropLast else line)

partial def hold [Host] (verbose : Bool) (state : Session.State) : IO Unit := do
  put (Session.prompt state.gathered)
  let line ← (← IO.getStdin).getLine
  let (exchange, next) := Session.step state (if line.isEmpty then none else some (typed line))
  complain (Run.log verbose exchange.notes)
  put exchange.output
  match next with
  | some following => hold verbose following
  | none => return

def deliver (job : Job) (result : String) : IO (Except JobError Unit) := do
  match job.target with
  | none =>
    put (result ++ "\n")
    return .ok ()
  | some path =>
    match ← (IO.FS.writeBinFile path (Job.fileBytes result).toByteArray).toBaseIO with
    | .ok _ =>
      put (Job.receipt path)
      return .ok ()
    | .error error => return .error (.file (fileError path error))

def work [Host] (verbose : Bool) (job : Job) : IO UInt32 := do
  let opened ←
    if job.isText || !Job.isSourcePath job.source then pure (.ok ByteArray.empty)
    else (IO.FS.readBinFile job.source).toBaseIO
  let prepared := job.prepare fun path => (opened.map ByteArray.toList).mapError (fileError path)
  complain (Run.log verbose prepared.notes)
  let outcome ←
    match prepared.outcome with
    | .ok result => deliver job result
    | .error error => pure (.error error)
  match outcome with
  | .ok _ => return 0
  | .error error =>
    match error.status? with
    | some status =>
      complain (Run.complaint error)
      return status.toUInt32
    | none =>
      complain (error.message ++ "\n")
      return 1

def run [Host] (arguments : List String) : IO UInt32 := do
  match Run.plan arguments with
  | .stop printed complaints status =>
    put printed
    complain complaints
    return status.toUInt32
  | .session settings verbose =>
    put (Session.banner settings)
    hold verbose ⟨settings, []⟩
    return 0
  | .job job verbose => work verbose job

end Funlet.Main

def main (arguments : List String) : IO UInt32 :=
  Funlet.Main.run arguments
