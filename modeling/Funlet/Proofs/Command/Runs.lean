import Funlet.Command.Run
import Funlet.Proofs.Command.Arguments
import Funlet.Proofs.Command.FileTree
import Funlet.Proofs.Expr.Reports

/-!
# Runs that do a job

A run that does a job either shows its whole result once, on the standard output or in a file, or
leaves no trace but its message.  The one exception are arguments that give a format option two
dashes instead of a name: a run with them breaks off where it would have to report a tree.
-/

set_option autoImplicit false

namespace Funlet

namespace Job

/-! ## What a job comes to -/

/-- A program was read whose tree has to be reported, in a format without a name. -/
def Nameless (job : Job) (files : FileTree) : Prop :=
  job.format = none ∧ job.tokens = false ∧
    ∃ content tree, job.text files.read = .ok content ∧
      Program.ofText job.strict content = .ok tree

variable [Host]

inductive Shows (job : Job) (content : String) : String → Prop
  | tokens {tokens : List Token} (wanted : job.tokens = true)
      (lexed : tokenize content = .ok tokens) : Shows job content (Token.listing tokens)
  | tree {tree : Expr} {format text : String} (wanted : job.tokens = false)
      (read : Program.ofText job.strict content = .ok tree) (named : job.format = some format)
      (shown : tree.report format job.indent = .ok text) : Shows job content text

/-- The causes for which a job fails, with the exit status of each: one if the content of its source
is no program, two if a file cannot be used. -/
inductive Fails (job : Job) (files : FileTree) : JobError → Nat → Prop
  | stray {content : String} {stray : StrayCharacter} (source : job.text files.read = .ok content)
      (cause : tokenize content = .error stray) : Fails job files (.program (.stray stray)) 1
  | mismatch {content : String} {mismatch : Mismatch} (source : job.text files.read = .ok content)
      (wanted : job.tokens = false)
      (cause : Program.ofText job.strict content = .error (.grammar (.mismatch mismatch))) :
      Fails job files (.program (.grammar (.mismatch mismatch))) 1
  | wrongExtension (isPath : job.isText = false) (cause : isSourcePath job.source = false) :
      Fails job files .wrongExtension 2
  | unread {error : FileError} (isPath : job.isText = false)
      (extension : isSourcePath job.source = true)
      (cause : files.read job.source = .error error) : Fails job files (.file error) 2
  | undecoded {bytes : List UInt8} {fault : Text.Utf8Fault} (isPath : job.isText = false)
      (extension : isSourcePath job.source = true) (found : files.read job.source = .ok bytes)
      (cause : Text.ofUtf8 (bytes.map UInt8.toNat) = .error fault) :
      Fails job files (.encoding fault) 2
  | unwritten {content text path : String} {error : FileError}
      (source : job.text files.read = .ok content) (shown : job.Shows content text)
      (target : job.target = some path)
      (cause : files.write path (fileBytes text) = .error error) : Fails job files (.file error) 2

variable {job : Job} {files : FileTree}

theorem Fails.status?_eq {error : JobError} {status : Nat} (fails : job.Fails files error status) :
    error.status? = some status := by
  cases fails <;> rfl

theorem fails_of_text {error : JobError} (failed : job.text files.read = .error error) :
    ∃ status, job.Fails files error status := by
  unfold text at failed
  split_ifs at failed with isText noSource
  · obtain rfl := Except.error.inj failed
    exact ⟨2, .wrongExtension (by simpa using isText) (by simpa using noSource)⟩
  · have isPath : job.isText = false := by simpa using isText
    have extension : isSourcePath job.source = true := by simpa using noSource
    split at failed
    · rename_i cause unread
      obtain rfl := Except.error.inj failed
      exact ⟨2, .unread isPath extension unread⟩
    · rename_i bytes found
      split at failed
      · rename_i fault undecoded
        obtain rfl := Except.error.inj failed
        exact ⟨2, .undecoded isPath extension found undecoded⟩
      · cases failed

/-- Every text that the lexer and the grammar accept has a report, if the format has a name. -/
theorem rendered_cases {content : String} (source : job.text files.read = .ok content)
    (known : ∀ format ∈ job.format, format ∈ formatNames)
    (built : Json.checkIndent job.indent = .ok ()) :
    (∃ text, (job.rendered content).outcome = .ok text ∧ job.Shows content text) ∨
      (∃ error status, (job.rendered content).outcome = .error error ∧
        job.Fails files error status) ∨
      (job.rendered content).outcome = .error .namelessFormat ∧ job.Nameless files := by
  unfold rendered
  cases lexed : tokenize content with
  | error stray => exact .inr (.inl ⟨_, 1, rfl, .stray source lexed⟩)
  | ok tokens =>
    cases wanted : job.tokens with
    | true => exact .inl ⟨_, rfl, .tokens wanted lexed⟩
    | false =>
      rcases Program.ofTokens_of_words job.strict (isWord_of_tokenize lexed) with
        ⟨tree, outcome⟩ | ⟨mismatch, outcome⟩
      · have read := Program.ofText_of_ok lexed outcome
        rw [Program.ofTokens] at outcome
        simp only [outcome, Bool.false_eq_true, if_false]
        cases named : job.format with
        | none => exact .inr (.inr ⟨rfl, named, wanted, content, tree, source, read⟩)
        | some format =>
          obtain ⟨text, shown⟩ :=
            Expr.exists_report (Program.writable_of_ofText read).1 built (known format named)
          simp only [shown]
          exact .inl ⟨text, rfl, .tree wanted read named shown⟩
      · have read := Program.ofText_of_error lexed outcome
        rw [Program.ofTokens] at outcome
        simp only [outcome, Bool.false_eq_true, if_false]
        exact .inr (.inl ⟨_, 1, rfl, .mismatch source wanted read⟩)

theorem rendered_of_nameless {content : String} {tree : Expr} (nameless : job.format = none)
    (wanted : job.tokens = false) (read : Program.ofText job.strict content = .ok tree) :
    (job.rendered content).outcome = .error .namelessFormat := by
  obtain ⟨tokens, lexed, outcome⟩ := Program.exists_tokens_of_ofText read
  rw [Program.ofTokens] at outcome
  simp only [rendered, lexed, wanted, Bool.false_eq_true, if_false, outcome, nameless]

/-! ## Whole jobs -/

theorem prepare_of_text_ok {content : String} (source : job.text files.read = .ok content) :
    (job.prepare files.read).outcome = (job.rendered content).outcome := by
  simp only [prepare, source]

theorem run_of_error {error : JobError}
    (failed : (job.prepare files.read).outcome = .error error) :
    job.run files = ⟨.error error, "", (job.run files).notes, files⟩ := by
  simp only [run, failed]

/-- What is shown is printed or written, or it cannot be written and nothing has happened. -/
theorem run_of_ok {content text : String} (source : job.text files.read = .ok content)
    (shown : job.Shows content text)
    (prepared : (job.prepare files.read).outcome = .ok text) :
    (job.target = none ∧
      job.run files = ⟨.ok text, text ++ "\n", (job.run files).notes, files⟩) ∨
    (∃ path after, job.target = some path ∧ files.Replaces after path (fileBytes text) ∧
      job.run files = ⟨.ok text, receipt path, (job.run files).notes, after⟩) ∨
    ∃ error, job.Fails files error 2 ∧
      job.run files = ⟨.error error, "", (job.run files).notes, files⟩ := by
  cases target : job.target with
  | none =>
    refine .inl ⟨rfl, ?_⟩
    simp only [run, prepared, target]
  | some path =>
    cases wrote : files.write path (fileBytes text) with
    | error error =>
      refine .inr (.inr ⟨.file error, .unwritten source shown target wrote, ?_⟩)
      simp only [run, prepared, target, wrote]
    | ok after =>
      refine .inr (.inl ⟨path, after, rfl, FileTree.write_replaces wrote, ?_⟩)
      simp only [run, prepared, target, wrote]

theorem run_of_nameless (nameless : job.Nameless files) :
    job.run files = ⟨.error .namelessFormat, "", (job.run files).notes, files⟩ := by
  obtain ⟨noName, wanted, content, tree, source, read⟩ := nameless
  refine run_of_error ?_
  rw [prepare_of_text_ok source]
  exact rendered_of_nameless noName wanted read

end Job

namespace Run

section Host

variable [Host]

/-- A run that came to an end: the whole result was printed, or the whole result was written and
only its receipt was printed, or nothing was printed or written and the message tells the cause. -/
inductive Settled (job : Job) (verbose : Bool) (files : FileTree) : RunReport → Prop
  | printed {content text : String} (source : job.text files.read = .ok content)
      (shown : job.Shows content text) (target : job.target = none) :
      Settled job verbose files
        ⟨.returned 0, text ++ "\n", log verbose (job.run files).notes, files⟩
  | written {content text path : String} {after : FileTree}
      (source : job.text files.read = .ok content) (shown : job.Shows content text)
      (target : job.target = some path)
      (replaces : files.Replaces after path (Job.fileBytes text)) :
      Settled job verbose files
        ⟨.returned 0, Job.receipt path, log verbose (job.run files).notes, after⟩
  | failed {error : JobError} {status : Nat} (fails : job.Fails files error status)
      (carried : (job.run files).result = .error error) :
      Settled job verbose files
        ⟨.returned status, "", log verbose (job.run files).notes ++ complaint error, files⟩

variable {job : Job} {files : FileTree}

omit [Host] in
theorem ofJob_of_ok {result printed : String} {notes : List Note} {after : FileTree}
    (verbose : Bool) :
    ofJob verbose ⟨.ok result, printed, notes, after⟩ =
      ⟨.returned 0, printed, log verbose notes, after⟩ := by
  simp [ofJob, conclusion]

theorem settled_of_fails {error : JobError} {status : Nat} (verbose : Bool)
    (fails : job.Fails files error status)
    (ran : job.run files = ⟨.error error, "", (job.run files).notes, files⟩) :
    Settled job verbose files (ofJob verbose (job.run files)) := by
  have settled : Settled job verbose files _ := .failed fails (by rw [ran])
  rw [ran, ofJob, conclusion, fails.status?_eq]
  exact settled

theorem settled_of_shows {content text : String} (verbose : Bool)
    (source : job.text files.read = .ok content) (shown : job.Shows content text)
    (prepared : (job.prepare files.read).outcome = .ok text) :
    Settled job verbose files (ofJob verbose (job.run files)) := by
  rcases Job.run_of_ok source shown prepared with
    ⟨target, ran⟩ | ⟨path, after, target, replaces, ran⟩ | ⟨error, fails, ran⟩
  · rw [ran, ofJob_of_ok]
    exact .printed source shown target
  · rw [ran, ofJob_of_ok]
    exact .written source shown target replaces
  · exact settled_of_fails verbose fails ran

/-- A job ends in one of the foreseen ways unless it has no name for the format. -/
theorem settled_of_not_nameless (verbose : Bool)
    (known : ∀ format ∈ job.format, format ∈ formatNames)
    (built : Json.checkIndent job.indent = .ok ()) (named : ¬ job.Nameless files) :
    Settled job verbose files (ofJob verbose (job.run files)) := by
  cases source : job.text files.read with
  | error error =>
    obtain ⟨status, fails⟩ := Job.fails_of_text source
    refine settled_of_fails verbose fails (Job.run_of_error ?_)
    simp only [Job.prepare, source]
  | ok content =>
    have prepared := Job.prepare_of_text_ok source
    rcases Job.rendered_cases source known built with
      ⟨text, outcome, shown⟩ | ⟨error, status, outcome, fails⟩ | ⟨_, nameless⟩
    · exact settled_of_shows verbose source shown (prepared.trans outcome)
    · exact settled_of_fails verbose fails (Job.run_of_error (prepared.trans outcome))
    · exact absurd nameless named

theorem report_of_read {arguments : List String} {options : Options} {source : String}
    (read : Arguments.read arguments = .ok options) (sourced : options.source = some source)
    (noSession : options.repl = false) (inputs : List Input) (files : FileTree) :
    report arguments inputs files =
      ofJob options.verbose ((jobOf options source).run files) := by
  have some_arguments : arguments.isEmpty = false := by
    cases arguments with
    | nil =>
      obtain rfl := Except.ok.inj read
      simp [Options.standard] at sourced
    | cons first rest => rfl
  simp only [report, plan, some_arguments, read, sourced, noSession, Bool.false_eq_true, if_false]

/-- A run that does a job leaves no trace but its message if it fails, and shows its whole result
once if it does not.  Only two dashes attached to an argument, which leave the format without a
name, break it off, and then without a trace, where the tree of a program would be reported. -/
theorem report_of_job {arguments : List String} {options : Options} {source : String}
    (read : Arguments.read arguments = .ok options) (sourced : options.source = some source)
    (noSession : options.repl = false)
    (narrow : ∀ width ∈ options.indent, Index.fits width = true ∧ width ≤ Host.maxIndent)
    (inputs : List Input) (files : FileTree) :
    (¬ (jobOf options source).Nameless files →
      Settled (jobOf options source) options.verbose files (report arguments inputs files)) ∧
    ((jobOf options source).Nameless files →
      (∃ argument ∈ arguments, Arguments.Dashed argument) ∧
        report arguments inputs files =
          ⟨.broken .namelessFormat, "",
            log options.verbose ((jobOf options source).run files).notes, files⟩) := by
  rw [report_of_read read sourced noSession]
  have known := Arguments.known_of_read read
  refine ⟨fun named => ?_, fun nameless => ⟨known.named nameless.1, ?_⟩⟩
  · refine settled_of_not_nameless _ known.known ?_ named
    refine Json.checkIndent_eq_ok fun width asked => narrow width ?_
    simp only [jobOf] at asked
    split_ifs at asked
    · simp at asked
    · exact asked
  · rw [Job.run_of_nameless nameless, ofJob, conclusion]
    simp [JobError.status?]

end Host

theorem report_of_job_out :
    ∃ options, Arguments.read ["-s", "f x", "-o", "out.txt"] = .ok options ∧
      Settled (jobOf options "f x") options.verbose ⟨[], [], []⟩
        (report ["-s", "f x", "-o", "out.txt"] [] ⟨[], [], []⟩) := by
  have asked : (Arguments.read ["-s", "f x", "-o", "out.txt"]).toOption.map
      (fun options => (options.source, options.repl, options.indent, options.format)) =
        some (some "f x", false, some 2, some "json") := by
    decide +kernel
  cases read : Arguments.read ["-s", "f x", "-o", "out.txt"] with
  | error stop => simp [read, Except.toOption] at asked
  | ok options =>
    simp only [read, Except.toOption, Option.map_some, Option.some.injEq, Prod.mk.injEq] at asked
    obtain ⟨sourced, noSession, indented, named⟩ := asked
    have narrow : ∀ width ∈ options.indent, Index.fits width = true ∧ width ≤ Host.maxIndent := by
      rw [indented]
      decide
    refine ⟨options, rfl, (report_of_job read sourced noSession narrow [] ⟨[], [], []⟩).1 ?_⟩
    rintro ⟨noName, _⟩
    simp [jobOf, named] at noName

/-- Two dashes attached to the format option leave the format without a name, which nothing
foresees. -/
theorem report_namelessFormat :
    (report ["-s", "x", "-f--"] [] ⟨[], [], []⟩).ending = .broken .namelessFormat := by
  decide +kernel

end Run

end Funlet
