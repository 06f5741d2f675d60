import Funlet.Session
import Mathlib.Data.List.DropRight
import Mathlib.Logic.Function.Iterate

/-!
# The entries of a session

A session cuts its inputs into entries, each the shortest run of lines in which no parenthesis is
left open, and answers one entry after the other.  What it prints for an entry depends on the text
of the entry and on the commands among the entries before it, and on nothing else: an entry that
fails leaves no trace.
-/

set_option autoImplicit false

namespace Funlet

theorem Text.trimmed_trimmed (p : Char → Bool) (text : List Char) :
    trimmed p (trimmed p text) = trimmed p text := by
  have front : (trimmed p text).dropWhile p = trimmed p text := by
    obtain ⟨back, whole⟩ : trimmed p text <+: text.dropWhile p := List.rdropWhile_prefix p _
    cases trim : trimmed p text with
    | nil => rfl
    | cons c rest =>
      have notDropped := List.head?_dropWhile_not p text
      rw [← whole, trim] at notDropped
      exact List.dropWhile_cons_of_neg (by simpa using notDropped)
  unfold trimmed at front ⊢
  rw [front, List.reverse_reverse]
  congr 1
  exact List.dropWhile_idempotent p _

theorem Text.strip_strip (text : String) : strip (strip text) = strip text := by
  simp [strip, trimmed_trimmed]

namespace Session

/-! ## Cutting inputs into entries -/

def IsExitWord (line : String) : Prop :=
  Text.strip line = "exit" ∨ Text.strip line = "quit"

instance (line : String) : Decidable (IsExitWord line) :=
  inferInstanceAs (Decidable (_ ∨ _))

def Begins (lines : List String) : Prop := ∀ line ∈ lines.head?, ¬ IsExitWord line

theorem begins_cons {line : String} {more : List String} (noExit : ¬ IsExitWord line) :
    Begins (line :: more) := by
  intro first member
  rwa [← Option.some.inj member]

/-- Lines are an entry if they are complete and no shorter run of lines at their front is. -/
structure IsEntry (lines : List String) : Prop where
  filled : lines ≠ []
  begins : Begins lines
  complete : balance lines ≤ 0
  shortest : ∀ front, front <+: lines → front ≠ [] → front ≠ lines → 0 < balance front

/-- Lines wait for more if no run of lines at their front is complete. -/
structure Waits (lines : List String) : Prop where
  begins : Begins lines
  unbalanced : ∀ front, front <+: lines → front ≠ [] → 0 < balance front

/-- What a session meets where it ends: no further input, an interrupt, or an exit word in the place
of the first line of an entry.  The inputs after it stay unread. -/
inductive Ends : (pending : List String) → (rest : List Input) → Prop where
  | exhausted (pending : List String) : Ends pending []
  | interrupted (pending : List String) (unread : List Input) : Ends pending (.interrupt :: unread)
  | exit {word : String} (isExit : IsExitWord word) (unread : List Input) :
    Ends [] (.line word :: unread)

structure Course (inputs : List Input) where
  entries : List (List String)
  pending : List String
  rest : List Input
  lossless : (entries.flatten ++ pending).map .line ++ rest = inputs
  isEntry : ∀ entry ∈ entries, IsEntry entry
  waits : Waits pending
  ends : Ends pending rest

/-! ## Answering entries -/

inductive Command where
  | format (name : String)
  | strict
  | verbose
  deriving DecidableEq

namespace Command

def format? : Command → Option String
  | .format name => some name
  | _ => none

def report (after : Settings) : Command → String
  | .format name => "[mode] >>> Output format " ++ name ++ "\n"
  | .strict => Settings.switchReport "Strict" after.strict
  | .verbose => Settings.switchReport "Verbose" after.verbose

def ofText? (text : String) : Option Command :=
  if text = ":strict" then some .strict
  else if text = "verbose-mode" then some .verbose
  else (formatNames.find? fun name => text == ":" ++ name).map .format

end Command

def entryText (lines : List String) : String := Text.strip ("\n".intercalate lines)

def command? (entry : List String) : Option Command := Command.ofText? (entryText entry)

/-- The settings after some commands: the last format named holds, and each switch was turned once
for every command that turns it. -/
def settingsAfter (initial : Settings) (commands : List Command) : Settings where
  format := (commands.filterMap Command.format?).getLast?.getD initial.format
  strict := not^[commands.count .strict] initial.strict
  verbose := not^[commands.count .verbose] initial.verbose

def reply [Host] (settings : Settings) (entry : List String) : Noted String :=
  if entryText entry = "" then ⟨"", []⟩
  else
    match command? entry with
    | some command => ⟨command.report (settingsAfter settings [command]), []⟩
    | none => settings.evaluate (entryText entry)

def promptAfter : (gathered : Nat) → String
  | 0 => ">>> "
  | _ + 1 => "... "

/-- The exchanges of lines that complete no entry, with some lines of the entry before them. -/
def silent (gathered count : Nat) : List Exchange :=
  (List.range' gathered count).map fun before => ⟨promptAfter before, "", []⟩

def answered [Host] (settings : Settings) (entry : List String) : List Exchange :=
  silent 0 (entry.length - 1) ++
    [⟨promptAfter (entry.length - 1), (reply settings entry).outcome, (reply settings entry).notes⟩]

def answeredAll [Host] (initial : Settings) (earlier : List (List String)) :
    List (List String) → List Exchange
  | [] => []
  | entry :: more =>
    answered (settingsAfter initial (earlier.filterMap command?)) entry ++
      answeredAll initial (earlier ++ [entry]) more

/-- What is printed where a session ends; a line is typed with its line end, the others are not. -/
def lastWords : (rest : List Input) → String
  | .line _ :: _ => farewell
  | _ => "\n" ++ farewell

def Course.transcript [Host] {inputs : List Input} (course : Course inputs) (settings : Settings) :
    Transcript where
  exchanges :=
    answeredAll settings [] course.entries ++ silent 0 course.pending.length ++
      [⟨promptAfter course.pending.length, lastWords course.rest, []⟩]
  unread := course.rest.tail.length

/-! ## Settings -/

theorem settingsAfter_nil (settings : Settings) : settingsAfter settings [] = settings := rfl

theorem settingsAfter_append (settings : Settings) (first second : List Command) :
    settingsAfter settings (first ++ second) =
      settingsAfter (settingsAfter settings first) second := by
  simp only [settingsAfter, List.filterMap_append, List.getLast?_append, List.count_append,
    Settings.mk.injEq]
  refine ⟨?_, ?_, ?_⟩
  · cases (second.filterMap Command.format?).getLast? <;> rfl
  · rw [Nat.add_comm, Function.iterate_add_apply]
  · rw [Nat.add_comm, Function.iterate_add_apply]

theorem settings_command?_eq (settings : Settings) (text : String) :
    settings.command? text =
      (Command.ofText? (Text.strip text)).map fun command =>
        (command.report (settingsAfter settings [command]), settingsAfter settings [command]) := by
  unfold Settings.command? Command.ofText?
  split
  · rename_i strict
    rw [strict]
    rfl
  · rename_i verbose
    rw [verbose]
    rfl
  · rename_i notStrict notVerbose
    rw [if_neg notStrict, if_neg notVerbose]
    cases formatNames.find? fun name => Text.strip text == ":" ++ name <;> rfl

theorem enter_eq [Host] (settings : Settings) (entry : List String) :
    settings.enter entry =
      (reply settings entry, settingsAfter settings (command? entry).toList) := by
  have noCommand : Command.ofText? "" = none := by decide
  by_cases blank : entryText entry = ""
  · have isBlank : Text.strip ("\n".intercalate entry) = "" := blank
    simp [Settings.enter, reply, command?, blank, isBlank, noCommand, settingsAfter_nil]
  · have notBlank : Text.strip ("\n".intercalate entry) ≠ "" := blank
    have same : Command.ofText? (Text.strip (Text.strip ("\n".intercalate entry))) =
        command? entry := by rw [Text.strip_strip]; rfl
    simp only [Settings.enter, reply, if_neg blank, if_neg notBlank, settings_command?_eq, same]
    cases command? entry <;> rfl

/-! ## Runs -/

def after (shown : List Exchange) (transcript : Transcript) : Transcript :=
  ⟨shown ++ transcript.exchanges, transcript.unread⟩

theorem after_append (first second : List Exchange) (transcript : Transcript) :
    after (first ++ second) transcript = after first (after second transcript) := by
  simp [after]

theorem run_cons [Host] (state next : State) (input : Input) (rest : List Input)
    (exchange : Exchange)
    (step : step state (some input) = (exchange, some next)) :
    run state (input :: rest) = after [exchange] (run next rest) := by
  rw [run, step]
  rfl

theorem prompt_eq (gathered : List String) : prompt gathered = promptAfter gathered.length := by
  cases gathered <;> rfl

theorem isExit_eq_false {gathered : List String} {line : String}
    (begins : Begins (gathered ++ [line])) : isExit gathered line = false := by
  cases gathered with
  | nil =>
    have noExit : ¬ IsExitWord line := begins line rfl
    simpa [isExit, IsExitWord] using noExit
  | cons => rfl

theorem isExit_eq_true {word : String} (isExitWord : IsExitWord word) : isExit [] word = true := by
  simpa [isExit, IsExitWord] using isExitWord

theorem step_gathers [Host] {gathered : List String} {line : String} (settings : Settings)
    (begins : Begins (gathered ++ [line])) (unbalanced : 0 < balance (gathered ++ [line])) :
    step ⟨settings, gathered⟩ (some (.line line)) =
      (⟨promptAfter gathered.length, "", []⟩, some ⟨settings, gathered ++ [line]⟩) := by
  have incomplete : isComplete (gathered ++ [line]) = false := by
    simpa [isComplete] using unbalanced
  simp [step, isExit_eq_false begins, incomplete, prompt_eq]

theorem step_answers [Host] {gathered : List String} {line : String} (settings : Settings)
    (begins : Begins (gathered ++ [line])) (complete : balance (gathered ++ [line]) ≤ 0) :
    step ⟨settings, gathered⟩ (some (.line line)) =
      (⟨promptAfter gathered.length, (reply settings (gathered ++ [line])).outcome,
        (reply settings (gathered ++ [line])).notes⟩,
        some ⟨settingsAfter settings (command? (gathered ++ [line])).toList, []⟩) := by
  have isComplete : isComplete (gathered ++ [line]) = true := by simpa [isComplete] using complete
  simp [step, isExit_eq_false begins, isComplete, prompt_eq, enter_eq]

theorem silent_succ (gathered count : Nat) :
    silent gathered (count + 1) = ⟨promptAfter gathered, "", []⟩ :: silent (gathered + 1) count :=
  rfl

theorem Begins.front {front back : List String} (begins : Begins (front ++ back)) :
    Begins front := by
  intro line first
  refine begins line ?_
  rw [List.head?_append, Option.mem_def.mp first]
  rfl

theorem Waits.front {front back : List String} (waits : Waits (front ++ back)) : Waits front where
  begins := waits.begins.front
  unbalanced := by
    intro shorter begins filled
    exact waits.unbalanced shorter (begins.trans (List.prefix_append front back)) filled

theorem run_waits [Host] (settings : Settings) {gathered lines : List String}
    (waits : Waits (gathered ++ lines)) (inputs : List Input) :
    run ⟨settings, gathered⟩ (lines.map .line ++ inputs) =
      after (silent gathered.length lines.length) (run ⟨settings, gathered ++ lines⟩ inputs) := by
  induction lines generalizing gathered with
  | nil =>
    rw [List.append_nil]
    rfl
  | cons line more ih =>
    have split : gathered ++ [line] ++ more = gathered ++ line :: more := by simp
    rw [← split] at waits
    have gathers := step_gathers settings waits.front.begins
      (waits.front.unbalanced _ (List.prefix_refl _) (by simp))
    have rest := ih waits
    rw [List.map_cons, List.cons_append, run_cons _ _ _ _ _ gathers, rest, split, ← after_append]
    simp [silent_succ]

theorem IsEntry.waits {front : List String} {last : String} (isEntry : IsEntry (front ++ [last])) :
    Waits front where
  begins := isEntry.begins.front
  unbalanced := by
    intro shorter begins filled
    refine isEntry.shortest shorter (begins.trans (List.prefix_append front _)) filled ?_
    rintro rfl
    have longer := begins.length_le
    simp only [List.length_append, List.length_singleton] at longer
    omega

/-- An entry is answered under the settings at its first line, whatever inputs follow. -/
theorem run_entry [Host] (settings : Settings) {entry : List String} (isEntry : IsEntry entry)
    (inputs : List Input) :
    run ⟨settings, []⟩ (entry.map .line ++ inputs) =
      after (answered settings entry)
        (run ⟨settingsAfter settings (command? entry).toList, []⟩ inputs) := by
  obtain ⟨front, last, rfl⟩ := (List.eq_nil_or_concat' entry).resolve_left isEntry.filled
  have answers := step_answers settings isEntry.begins isEntry.complete
  have waits : Waits ([] ++ front) := isEntry.waits
  rw [List.map_append, List.append_assoc, run_waits settings waits, List.nil_append]
  rw [List.map_singleton, List.singleton_append, run_cons _ _ _ _ _ answers, ← after_append]
  simp [answered]

/-- Entries are answered one after the other, each under the settings that the commands among the
entries before it leave. -/
theorem run_entries [Host] (initial : Settings) (earlier : List (List String))
    {entries : List (List String)} (areEntries : ∀ entry ∈ entries, IsEntry entry)
    (inputs : List Input) :
    run ⟨settingsAfter initial (earlier.filterMap command?), []⟩
        (entries.flatten.map .line ++ inputs) =
      after (answeredAll initial earlier entries)
        (run ⟨settingsAfter initial ((earlier ++ entries).filterMap command?), []⟩ inputs) := by
  induction entries generalizing earlier with
  | nil =>
    rw [List.append_nil]
    rfl
  | cons entry more ih =>
    obtain ⟨isEntry, areMore⟩ := List.forall_mem_cons.mp areEntries
    have settings : settingsAfter (settingsAfter initial (earlier.filterMap command?))
        (command? entry).toList =
          settingsAfter initial ((earlier ++ [entry]).filterMap command?) := by
      rw [← settingsAfter_append, List.filterMap_append]
      cases named : command? entry <;> simp [named]
    have rest := ih (earlier ++ [entry]) areMore
    rw [List.append_assoc, List.singleton_append] at rest
    rw [List.flatten_cons, List.map_append, List.append_assoc, run_entry _ isEntry, settings, rest,
      ← after_append]
    rfl

theorem run_ends [Host] (settings : Settings) {pending : List String} {rest : List Input}
    (ends : Ends pending rest) :
    run ⟨settings, pending⟩ rest =
      ⟨[⟨promptAfter pending.length, lastWords rest, []⟩], rest.tail.length⟩ := by
  cases ends with
  | exhausted => simp [run, step, prompt_eq, lastWords]
  | interrupted => simp [run, step, prompt_eq, lastWords]
  | exit isExitWord => simp [run, step, prompt_eq, lastWords, isExit_eq_true isExitWord]

theorem transcript_of_course [Host] (settings : Settings) {inputs : List Input}
    (course : Course inputs) :
    transcript settings inputs = course.transcript settings := by
  obtain ⟨entries, pending, rest, rfl, isEntry, waits, ends⟩ := course
  have answers := run_entries settings [] isEntry (pending.map .line ++ rest)
  have gathers := run_waits (settingsAfter settings (entries.filterMap command?))
    (show Waits ([] ++ pending) from waits) rest
  rw [List.filterMap_nil, settingsAfter_nil, List.nil_append] at answers
  rw [List.nil_append, run_ends _ ends] at gathers
  calc run ⟨settings, []⟩ ((entries.flatten ++ pending).map .line ++ rest)
      = after (answeredAll settings [] entries)
          (after (silent 0 pending.length)
            ⟨[⟨promptAfter pending.length, lastWords rest, []⟩], rest.tail.length⟩) := by
        rw [List.map_append, List.append_assoc, answers, gathers]
        rfl
    _ = Course.transcript ⟨entries, pending, rest, rfl, isEntry, waits, ends⟩ settings := by
        simp only [after, Course.transcript, List.append_assoc]

/-! ## Every session has a course -/

theorem waits_nil : Waits [] where
  begins := by simp [Begins]
  unbalanced := by simp

theorem Waits.concat {lines : List String} {line : String} (waits : Waits lines)
    (begins : Begins (lines ++ [line])) (unbalanced : 0 < balance (lines ++ [line])) :
    Waits (lines ++ [line]) where
  begins := begins
  unbalanced := by
    intro front shown filled
    rcases List.prefix_concat_iff.mp shown with rfl | shown
    · exact unbalanced
    · exact waits.unbalanced front shown filled

theorem Waits.isEntry {lines : List String} {line : String} (waits : Waits lines)
    (begins : Begins (lines ++ [line])) (complete : balance (lines ++ [line]) ≤ 0) :
    IsEntry (lines ++ [line]) where
  filled := by simp
  begins := begins
  complete := complete
  shortest := by
    intro front shown filled shorter
    rcases List.prefix_concat_iff.mp shown with whole | shown
    · exact absurd whole shorter
    · exact waits.unbalanced front shown filled

def Course.cons {inputs : List Input} {entry : List String} (isEntry : IsEntry entry)
    (course : Course inputs) : Course (entry.map .line ++ inputs) where
  entries := entry :: course.entries
  pending := course.pending
  rest := course.rest
  lossless := by
    have lossless := congrArg (entry.map Input.line ++ ·) course.lossless
    simpa using lossless
  isEntry := List.forall_mem_cons.mpr ⟨isEntry, course.isEntry⟩
  waits := course.waits
  ends := course.ends

theorem exists_course_of_waits {gathered : List String} (waits : Waits gathered)
    (inputs : List Input) : Nonempty (Course (gathered.map .line ++ inputs)) := by
  induction inputs generalizing gathered with
  | nil => exact ⟨⟨[], gathered, [], rfl, by simp, waits, .exhausted gathered⟩⟩
  | cons input rest ih =>
    cases input with
    | interrupt => exact ⟨⟨[], gathered, _, rfl, by simp, waits, .interrupted gathered rest⟩⟩
    | line line =>
      have shifted : gathered.map .line ++ .line line :: rest =
          (gathered ++ [line]).map Input.line ++ rest := by simp
      by_cases begins : Begins (gathered ++ [line])
      · rw [shifted]
        by_cases complete : balance (gathered ++ [line]) ≤ 0
        · obtain ⟨course⟩ := ih waits_nil
          exact ⟨course.cons (waits.isEntry begins complete)⟩
        · exact ih (waits.concat begins (by omega))
      · -- Only an exit word in the place of the first line begins no entry.
        cases gathered with
        | nil =>
          have isExit : IsExitWord line := by simpa [Begins] using begins
          exact ⟨⟨[], [], _, rfl, by simp, waits, .exit isExit rest⟩⟩
        | cons first more => exact absurd waits.begins begins

/-- The inputs of a session can be cut into entries, and however they are cut, the session answers
each entry under the settings that the commands among the entries before it leave.  It prints
nothing else but its last words, and it reads no input after those that end it. -/
theorem transcript_answers_entries [Host] (settings : Settings) (inputs : List Input) :
    Nonempty (Course inputs) ∧
      ∀ course : Course inputs, transcript settings inputs = course.transcript settings :=
  ⟨exists_course_of_waits waits_nil inputs, transcript_of_course settings⟩

end Session

end Funlet
