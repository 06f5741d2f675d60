import Funlet.Expr.Report
import Funlet.Grammar.Program

/-!
# Interactive sessions

A session reads lines.  Lines are gathered into an entry as long as more parentheses are opened than
closed; a complete entry is either a command, which changes the settings, or a program, which is
read and reported.  Whatever an entry does, the next one starts afresh with the settings alone.
-/

set_option autoImplicit false

namespace Funlet

structure Settings where
  format : String
  strict : Bool
  verbose : Bool
  deriving DecidableEq

def parenBalance (text : String) : Int :=
  (text.toList.count '(' : Int) - text.toList.count ')'

namespace Settings

def initial : Settings := ⟨"tree", false, false⟩

def switchReport (name : String) (value : Bool) : String :=
  "[mode] >>> " ++ name ++ " mode " ++ (if value then "ON" else "OFF") ++ "\n"

def command? (settings : Settings) (text : String) : Option (String × Settings) :=
  match Text.strip text with
  | ":strict" =>
    let strict := !settings.strict
    some (switchReport "Strict" strict, { settings with strict })
  | "verbose-mode" =>
    let verbose := !settings.verbose
    some (switchReport "Verbose" verbose, { settings with verbose })
  | other =>
    match formatNames.find? (fun name => other == ":" ++ name) with
    | some format =>
      some ("[mode] >>> Output format " ++ format ++ "\n", { settings with format })
    | none => none

def complaint (message : String) : String := "[error] >>>\n" ++ message ++ "\n"

/-- The trace of an error that nothing foresees, without the frames between its first line and its
last, which tell of the inside of the program. -/
def breakdown (kind message : String) : String :=
  complaint ("Traceback (most recent call last):\n" ++ kind ++ ": " ++ message ++ "\n")

def verdict [Host] (settings : Settings) : Except GrammarError Expr → String
  | .ok tree =>
    match tree.report settings.format (some 2) with
    | .ok text => text ++ "\n"
    | .error error => breakdown error.kind error.message
  | .error (.mismatch mismatch) => complaint mismatch.message
  | .error (.unreadable text) => breakdown "ValueError" (GrammarError.unreadable text).message

def evaluate [Host] (settings : Settings) (text : String) : Noted String :=
  match tokenize text with
  | .error stray => ⟨complaint stray.message, []⟩
  | .ok tokens =>
    let echo := if settings.verbose then "[tokens] >>> " ++ Token.echoAll tokens ++ "\n" else ""
    let read := Program.ofTokensNoted settings.strict tokens
    ⟨echo ++ settings.verdict read.outcome, read.notes⟩

/-- What a complete entry prints, and the settings after it: nothing for a blank entry. -/
def enter [Host] (settings : Settings) (lines : List String) : Noted String × Settings :=
  let text := Text.strip ("\n".intercalate lines)
  if text = "" then (⟨"", []⟩, settings)
  else
    match settings.command? text with
    | some (output, after) => (⟨output, []⟩, after)
    | none => (settings.evaluate text, settings)

end Settings

inductive Input where
  | line (text : String)
  | interrupt
  deriving DecidableEq

structure Exchange where
  prompt : String
  output : String
  notes : List Note

structure Transcript where
  exchanges : List Exchange
  unread : Nat

namespace Session

def banner (settings : Settings) : String :=
  "MicroML REPL [format=" ++ settings.format ++ "]. Type 'exit' or 'quit' to leave.\n"

def farewell : String := "Exiting MicroML REPL.\n"

def prompt (gathered : List String) : String :=
  if gathered.isEmpty then ">>> " else "... "

/-- Whether a line ends the session: only the first line of an entry can. -/
def isExit (gathered : List String) (line : String) : Bool :=
  gathered.isEmpty && (Text.strip line == "exit" || Text.strip line == "quit")

def balance : List String → Int
  | [] => 0
  | line :: rest => parenBalance line + balance rest

def isComplete (lines : List String) : Bool :=
  decide (balance lines ≤ 0)

structure State where
  settings : Settings
  gathered : List String
  deriving DecidableEq

/-- What happens at one prompt, and the state at the next one unless the session ends.  No input
means that the inputs are used up. -/
def step [Host] (state : State) : Option Input → Exchange × Option State
  | none => (⟨prompt state.gathered, "\n" ++ farewell, []⟩, none)
  | some .interrupt => (⟨prompt state.gathered, "\n" ++ farewell, []⟩, none)
  | some (.line line) =>
    if isExit state.gathered line then (⟨prompt state.gathered, farewell, []⟩, none)
    else
      let lines := state.gathered ++ [line]
      if isComplete lines then
        let (printed, after) := state.settings.enter lines
        (⟨prompt state.gathered, printed.outcome, printed.notes⟩, some ⟨after, []⟩)
      else (⟨prompt state.gathered, "", []⟩, some ⟨state.settings, lines⟩)

def run [Host] (state : State) : List Input → Transcript
  | [] => ⟨[(step state none).1], 0⟩
  | input :: rest =>
    match step state (some input) with
    | (exchange, none) => ⟨[exchange], rest.length⟩
    | (exchange, some next) =>
      let course := run next rest
      ⟨exchange :: course.exchanges, course.unread⟩

def transcript [Host] (settings : Settings) (inputs : List Input) : Transcript :=
  run ⟨settings, []⟩ inputs

end Session

end Funlet
