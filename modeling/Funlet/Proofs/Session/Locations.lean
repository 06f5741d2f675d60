import Funlet.Proofs.Session.Entries
import Funlet.Proofs.Stepwise.Rules
import Funlet.Proofs.Token.Joining
import Funlet.Proofs.Token.Stray

/-!
# Where the errors of an entry are

An error of a program names the line and the column of a character or a token in the text that was
read.  That text is an entry without the blanks at its ends, so the places that a session prints are
those of the lines as they were typed, with one exception: on the first line they are too small by
the number of blanks at its front.
-/

set_option autoImplicit false

namespace Funlet

/-! ## Parts of lines -/

/-- A part of some lines that does not reach over the end of a line. -/
structure LinePart (lines : List String) (chars : List Char) where
  /-- The lines above. -/
  above : List String
  /-- The characters before the part on its line. -/
  before : List Char
  behind : List Char
  below : List String
  lossless : lines = above ++ String.ofList (before ++ (chars ++ behind)) :: below

namespace LinePart

variable {lines : List String} {chars : List Char}

def place (part : LinePart lines chars) : Place := ⟨part.above.length + 1, part.before.length + 1⟩

def fed (lines : List String) : List Char := lines.flatMap fun line => line.toList ++ ['\n']

def typed (part : LinePart lines chars) : List Char := fed part.above ++ part.before

theorem typed_cons (line : String) (part : LinePart lines chars) :
    ∃ lower : LinePart (line :: lines) chars, lower.typed = line.toList ++ '\n' :: part.typed := by
  refine ⟨⟨line :: part.above, part.before, part.behind, part.below,
    congrArg (line :: ·) part.lossless⟩, ?_⟩
  simp [typed, fed]

end LinePart

theorem prefix_of_noFeed {chars rest front more : List Char} (noFeed : '\n' ∉ chars)
    (split : chars ++ rest = front ++ '\n' :: more) : chars <+: front := by
  rcases List.append_eq_append_iff.mp split with ⟨behind, inside, _⟩ | ⟨crossing, inside, later⟩
  · exact ⟨behind, inside.symm⟩
  · cases crossing with
    | nil => exact ⟨[], by simp [inside]⟩
    | cons c crossing =>
      obtain ⟨rfl, _⟩ := List.cons.inj later
      exact absurd (by simp [inside]) noFeed

/-- What stands in joined lines, without a line feed in it, is a part of the lines. -/
theorem exists_part {lines : List String} {front chars rest : List Char} (filled : chars ≠ [])
    (noFeed : '\n' ∉ chars)
    (split : ("\n".intercalate lines).toList = front ++ (chars ++ rest)) :
    ∃ part : LinePart lines chars, part.typed = front := by
  induction lines generalizing front with
  | nil => simp [filled] at split
  | cons line more ih =>
    cases more with
    | nil =>
      rw [String.intercalate_singleton] at split
      refine ⟨⟨[], front, rest, [], ?_⟩, rfl⟩
      rw [← split, String.ofList_toList, List.nil_append]
    | cons next more =>
      have joined : ("\n".intercalate (line :: next :: more)).toList =
          line.toList ++ '\n' :: ("\n".intercalate (next :: more)).toList := by
        rw [String.intercalate_cons_cons]
        simp
      rw [joined] at split
      rcases List.append_eq_append_iff.mp split with ⟨after, rfl, later⟩ | ⟨within, inside, later⟩
      · -- The part does not begin with the line feed, so it is further below.
        cases after with
        | nil =>
          obtain ⟨c, chars, rfl⟩ := List.exists_cons_of_ne_nil filled
          obtain ⟨rfl, _⟩ := List.cons.inj later
          simp at noFeed
        | cons c after =>
          obtain ⟨rfl, below⟩ := List.cons.inj later
          obtain ⟨part, rfl⟩ := ih below
          exact part.typed_cons line
      · obtain ⟨behind, rfl⟩ := prefix_of_noFeed noFeed later
        refine ⟨⟨[], front, behind, next :: more, ?_⟩, rfl⟩
        rw [← inside, String.ofList_toList, List.nil_append]

theorem Place.after_noFeed {text : List Char} (noFeed : '\n' ∉ text) (place : Place) :
    place.after text = ⟨place.line, place.column + text.length⟩ := by
  induction text generalizing place with
  | nil => simp
  | cons c text ih =>
    simp only [List.mem_cons, not_or] at noFeed
    obtain ⟨other, later⟩ := noFeed
    have next : place.step c = ⟨place.line, place.column + 1⟩ := if_neg (Ne.symm other)
    rw [after_cons, next, ih later, List.length_cons]
    exact congrArg (Place.mk place.line) (by dsimp only; omega)

theorem Place.after_fed {lines : List String} (oneLine : ∀ line ∈ lines, '\n' ∉ line.toList)
    (line : Int) : (Place.mk line 1).after (LinePart.fed lines) = ⟨line + lines.length, 1⟩ := by
  induction lines generalizing line with
  | nil => simp [LinePart.fed]
  | cons first lines ih =>
    obtain ⟨noFeed, later⟩ := List.forall_mem_cons.mp oneLine
    have fed : LinePart.fed (first :: lines) = first.toList ++ '\n' :: LinePart.fed lines := by
      simp [LinePart.fed]
    have next : (Place.mk line (1 + first.toList.length)).step '\n' = ⟨line + 1, 1⟩ := if_pos rfl
    rw [fed, after_append, after_noFeed noFeed, after_cons, next, ih later, List.length_cons]
    exact congrArg (Place.mk · 1) (by omega)

theorem LinePart.start_after_typed {lines : List String} {chars : List Char}
    (part : LinePart lines chars) (oneLine : ∀ line ∈ lines, '\n' ∉ line.toList) :
    Place.start.after part.typed = part.place := by
  obtain ⟨above, before, behind, below, rfl⟩ := part
  obtain ⟨aboveLines, line, _⟩ := List.forall_mem_append.mp oneLine |>.imp_right
    List.forall_mem_cons.mp
  have noFeed : '\n' ∉ before := fun member => line (by simp [member])
  rw [typed, Place.after_append, Place.start, Place.after_fed aboveLines,
    Place.after_noFeed noFeed]
  exact congrArg₂ Place.mk (by simp; omega) (by simp; omega)

/-- Behind characters without a line feed only the columns of the first line are other ones. -/
theorem Place.beyond_noFeed {front : List Char} (noFeed : '\n' ∉ front) (place : Place) :
    place.beyond front =
      ⟨place.line, if place.line = 1 then place.column + front.length else place.column⟩ := by
  have all : front.reverse.takeWhile (· ≠ '\n') = front.reverse := by
    rw [List.takeWhile_eq_self_iff]
    intro c member
    have other : c ≠ '\n' := by
      rintro rfl
      exact noFeed (List.mem_reverse.mp member)
    simpa using other
  rw [beyond, List.count_eq_zero_of_not_mem noFeed, all, List.length_reverse]
  exact congrArg₂ Place.mk (by simp) rfl

section Moved

variable {lines : List String} {chars front : List Char} {place : Place}
  (part : LinePart lines chars)

theorem LinePart.place_of_beyond (noFeed : '\n' ∉ front) (moved : part.place = place.beyond front) :
    part.place.line = place.line ∧
    part.place.column =
      if part.above = [] then place.column + front.length else place.column := by
  rw [Place.beyond_noFeed noFeed] at moved
  have line : part.place.line = place.line := by rw [moved]
  have first : place.line = 1 ↔ part.above = [] := by
    rw [← line, ← List.length_eq_zero_iff]
    show (part.above.length + 1 : Int) = 1 ↔ part.above.length = 0
    omega
  refine ⟨line, ?_⟩
  rw [moved]
  simp only [first]

theorem LinePart.place_eq_iff (line : part.place.line = place.line)
    (column : part.place.column =
      if part.above = [] then place.column + front.length else place.column) :
    place = part.place ↔ part.above ≠ [] ∨ front = [] := by
  constructor
  · intro same
    by_cases top : part.above = []
    · rw [if_pos top, ← same] at column
      have none : front.length = 0 := by omega
      exact .inr (List.length_eq_zero_iff.mp none)
    · exact .inl top
  · intro counted
    have sameColumn : place.column = part.place.column := by
      rcases counted with lower | none
      · rw [column, if_neg lower]
      · simp [column, none]
    exact congrArg₂ Place.mk line.symm sameColumn

end Moved

/-! ## The blanks at the front of an entry -/

namespace Session

def leadingBlanks (entry : List String) : List Char :=
  (entry.head?.getD "").toList.takeWhile Text.isBlank

theorem noFeed_leadingBlanks {entry : List String}
    (oneLine : ∀ line ∈ entry, '\n' ∉ line.toList) : '\n' ∉ leadingBlanks entry := by
  cases entry with
  | nil => simp [leadingBlanks]
  | cons line more =>
    intro member
    exact oneLine line (by simp) ((List.takeWhile_sublist _).subset member)

theorem IsEntry.exists_paren {line next : String} {more : List String}
    (isEntry : IsEntry (line :: next :: more)) : '(' ∈ line.toList := by
  have first : [line] <+: line :: next :: more := ⟨next :: more, rfl⟩
  have unbalanced := isEntry.shortest [line] first (by simp) (by simp)
  have opened : 0 < line.toList.count '(' := by
    simp only [balance, parenBalance] at unbalanced
    omega
  exact List.count_pos_iff.mp opened

theorem takeWhile_joined {entry : List String} (isEntry : IsEntry entry) :
    ("\n".intercalate entry).toList.takeWhile Text.isBlank = leadingBlanks entry := by
  cases entry with
  | nil => exact absurd rfl isEntry.filled
  | cons line more =>
    cases more with
    | nil =>
      rw [String.intercalate_singleton]
      rfl
    | cons next more =>
      have paren := isEntry.exists_paren
      have stops : (line.toList.takeWhile Text.isBlank).length ≠ line.toList.length := by
        intro whole
        have same := (List.takeWhile_prefix Text.isBlank).eq_of_length whole
        have blank := List.mem_takeWhile_imp (same ▸ paren)
        exact absurd blank (by decide)
      rw [String.intercalate_cons_cons, String.append_assoc, String.toList_append,
        List.takeWhile_append, if_neg stops]
      rfl

/-- The lines of an entry are its text with the blanks at the front of the first line before it. -/
theorem exists_trailing {entry : List String} (isEntry : IsEntry entry) :
    ∃ trailing, ("\n".intercalate entry).toList =
      leadingBlanks entry ++ ((entryText entry).toList ++ trailing) := by
  obtain ⟨trailing, whole⟩ : Text.trimmed Text.isBlank ("\n".intercalate entry).toList <+:
      ("\n".intercalate entry).toList.dropWhile Text.isBlank := List.rdropWhile_prefix _ _
  refine ⟨trailing, ?_⟩
  rw [entryText, Text.strip, String.toList_ofList, whole, ← takeWhile_joined isEntry,
    List.takeWhile_append_dropWhile]

end Session

/-! ## The place of an error -/

/-- A message ends with a place, in parentheses or without. -/
def Place.IsNamedBy (place : Place) (message : String) : Prop :=
  ∃ front,
    message = front ++ " at line " ++ Digits.signed place.line ++ ", col " ++
      Digits.signed place.column ∨
    message = front ++ (" (line " ++ Digits.signed place.line ++ ", col " ++
      Digits.signed place.column ++ ")")

namespace ProgramError

def place? : ProgramError → Option Place
  | .stray details => some details.place
  | .grammar (.mismatch mismatch) => mismatch.token.map Token.place
  | .grammar (.unreadable _) => none

/-- An error is due to a word of a text, the place of which it names: to the character at which
reading stops, or to the token with the index named.  What is before the word has the tokens before
the one at fault. -/
inductive IsDueTo (text : String) : ProgramError → Place → (before word : List Char) → Prop
  | stray {stray : StrayCharacter} {before behind : List Char}
      (blame : stray.IsToBlame text before behind) :
      IsDueTo text (.stray stray) stray.place before [stray.char]
  | token {mismatch : Mismatch} {token : Token} {earlier later : List Token}
      {before behind : List Char} (lexed : tokenize text = .ok (earlier ++ token :: later))
      (position : mismatch.position = earlier.length) (found : mismatch.token = some token)
      (split : text.toList = before ++ (token.text.toList ++ behind))
      (stands : token.StandsBetween before (token.text.toList ++ behind))
      (readable : tokenize (String.ofList before) = .ok earlier) :
      IsDueTo text (.grammar (.mismatch mismatch)) token.place before token.text.toList

theorem isNamedBy_message {error : ProgramError} {place : Place}
    (located : error.place? = some place) : place.IsNamedBy error.message := by
  cases error with
  | stray details =>
    obtain rfl := Option.some.inj located
    exact ⟨"Unexpected character " ++ Text.quoted (String.singleton details.char), .inl rfl⟩
  | grammar error =>
    cases error with
    | unreadable text => cases located
    | mismatch mismatch =>
      obtain ⟨expected, position, found⟩ := mismatch
      cases found with
      | none => cases located
      | some token =>
        obtain rfl := Option.some.inj located
        exact ⟨"Expected " ++ expected.description ++ ", found " ++ token.describe ++
          " at token " ++ Digits.decimal position, .inr rfl⟩

section Due

variable {error : ProgramError} {place : Place} {text : String} {before word : List Char}

theorem IsDueTo.start_after (due : error.IsDueTo text place before word) :
    Place.start.after before = place := by
  cases due with
  | stray blame =>
    rw [Place.start_after]
    exact (congrArg₂ Place.mk blame.line blame.column).symm
  | token _ _ _ _ stands _ => exact (Token.standsBetween_iff.mp stands).2.symm

theorem IsDueTo.exists_behind (due : error.IsDueTo text place before word) :
    ∃ behind, text.toList = before ++ (word ++ behind) := by
  cases due with
  | stray blame => exact ⟨_, blame.stands⟩
  | token _ _ _ split _ _ => exact ⟨_, split⟩

theorem IsDueTo.solid (due : error.IsDueTo text place before word) : word ≠ [] ∧ Solid word := by
  cases due with
  | stray blame => exact ⟨List.cons_ne_nil _ _, List.forall_mem_singleton.mpr blame.visible⟩
  | token _ _ _ _ stands _ =>
    exact ⟨Word.ne_nil_of_first? (Word.first?_of_munches stands.munches), stands.munches.solid⟩

theorem IsDueTo.word_eq {mismatch : Mismatch} {token : Token}
    (due : IsDueTo text (.grammar (.mismatch mismatch)) place before word)
    (found : mismatch.token = some token) : word = token.text.toList := by
  cases due with
  | token _ _ same _ _ _ => rw [Option.some.inj (same.symm.trans found)]

/-- An error of a program that names a place is due to a character or a token there. -/
theorem exists_isDueTo {strict : Bool} (failed : Program.ofText strict text = .error error)
    (located : error.place? = some place) :
    ∃ before word, error.IsDueTo text place before word := by
  cases lexed : tokenize text with
  | error details =>
    have stopped : Program.ofText strict text = .error (.stray details) := by
      unfold Program.ofText Program.ofTextNoted
      rw [lexed]
    obtain rfl := Except.error.inj (stopped.symm.trans failed)
    obtain rfl := Option.some.inj located
    obtain ⟨before, behind, blame⟩ := tokenize_blames_stray lexed
    exact ⟨before, _, .stray blame⟩
  | ok tokens =>
    rcases Program.ofTokens_cases strict tokens with
      ⟨tree, rest, _, outcome⟩ | ⟨fault, rest, read, outcome⟩
    · rw [Program.ofText_of_ok lexed outcome] at failed
      cases failed
    · obtain rfl := Except.error.inj ((Program.ofText_of_error lexed outcome).symm.trans failed)
      have within := Stepwise.within_of_program read
      cases fault with
      | unreadable text => cases located
      | unexpected expected left =>
        cases left with
        | nil => cases located
        | cons token later =>
          obtain rfl := Option.some.inj located
          obtain ⟨earlier, rfl⟩ := within
          obtain ⟨before, behind, split, stands, readable⟩ := exists_before_of_tokenize lexed
          have position : (earlier ++ token :: later).length - (token :: later).length =
              earlier.length := by simp
          exact ⟨before, _, .token lexed position rfl split stands readable⟩

end Due

end ProgramError

/-! ## The answer to an entry -/

namespace Session

theorem exists_evaluate [Host] {settings : Settings} {text : String} {error : ProgramError}
    {place : Place}
    (failed : Program.ofText settings.strict text = .error error)
    (located : error.place? = some place) :
    ∃ echo, (settings.evaluate text).outcome = echo ++ Settings.complaint error.message ∧
      (settings.verbose = false → echo = "") := by
  unfold Program.ofText Program.ofTextNoted at failed
  unfold Settings.evaluate
  cases lexed : tokenize text with
  | error details =>
    rw [lexed] at failed
    obtain rfl := Except.error.inj failed
    exact ⟨"", String.empty_append.symm, fun _ => rfl⟩
  | ok tokens =>
    rw [lexed] at failed
    simp only at failed ⊢
    cases outcome : (Program.ofTokensNoted settings.strict tokens).outcome with
    | ok tree =>
      rw [outcome] at failed
      cases failed
    | error error =>
      rw [outcome] at failed
      obtain rfl := Except.error.inj failed
      cases error with
      | unreadable text => cases located
      | mismatch mismatch =>
        refine ⟨_, rfl, fun quiet => ?_⟩
        rw [quiet]
        rfl

theorem exchange_of_entry [Host] (settings : Settings) {entry : List String}
    (isEntry : IsEntry entry)
    (inputs : List Input) :
    (run ⟨settings, []⟩ (entry.map .line ++ inputs)).exchanges[entry.length - 1]? =
      some ⟨promptAfter (entry.length - 1), (reply settings entry).outcome,
        (reply settings entry).notes⟩ := by
  have silence : (silent 0 (entry.length - 1)).length = entry.length - 1 := by simp [silent]
  rw [run_entry settings isEntry]
  simp only [after, answered, List.append_assoc]
  rw [List.getElem?_append_right (by omega), silence, Nat.sub_self]
  rfl

/-- What an error is due to is a part of the lines typed, behind the blanks at their front. -/
theorem exists_part_of_isDueTo {entry : List String} (isEntry : IsEntry entry)
    (oneLine : ∀ line ∈ entry, '\n' ∉ line.toList) {error : ProgramError} {place : Place}
    {before word : List Char} (due : error.IsDueTo (entryText entry) place before word) :
    ∃ part : LinePart entry word, part.typed = leadingBlanks entry ++ before ∧
      part.place = place.beyond (leadingBlanks entry) := by
  obtain ⟨behind, split⟩ := due.exists_behind
  obtain ⟨filled, solid⟩ := due.solid
  obtain ⟨trailing, joined⟩ := exists_trailing isEntry
  have noFeed : '\n' ∉ word := fun member => absurd (solid '\n' member) (by decide)
  have typed : ("\n".intercalate entry).toList =
      leadingBlanks entry ++ before ++ (word ++ (behind ++ trailing)) := by
    simp [joined, split]
  obtain ⟨part, sameTyped⟩ := exists_part filled noFeed typed
  refine ⟨part, sameTyped, ?_⟩
  rw [← part.start_after_typed oneLine, sameTyped, Place.after_append, Place.after_start_after,
    due.start_after]

/-- If an entry is a program with an error that names a place, the session prints a complaint that
ends with the place, and the character or the token at fault is a part of the lines typed: on the
line named, and in the column named unless it is on the first line, where the blanks at its front
have not been counted.  So the place printed is the one typed if and only if the part at fault is
further below or no blank is at the front. -/
theorem run_locates_error [Host] (settings : Settings) {entry : List String}
    (isEntry : IsEntry entry)
    (oneLine : ∀ line ∈ entry, '\n' ∉ line.toList) (program : command? entry = none)
    {error : ProgramError} {place : Place}
    (failed : Program.ofText settings.strict (entryText entry) = .error error)
    (located : error.place? = some place) (inputs : List Input) :
    (∃ exchange echo,
      (run ⟨settings, []⟩ (entry.map .line ++ inputs)).exchanges[entry.length - 1]? =
        some exchange ∧
      exchange.output = echo ++ Settings.complaint error.message ∧
      (settings.verbose = false → echo = "") ∧ place.IsNamedBy error.message) ∧
    ∃ before word, ∃ part : LinePart entry word,
      error.IsDueTo (entryText entry) place before word ∧
      part.typed = leadingBlanks entry ++ before ∧
      part.place.line = place.line ∧
      part.place.column =
        (if part.above = [] then place.column + (leadingBlanks entry).length else place.column) ∧
      (place = part.place ↔ part.above ≠ [] ∨ leadingBlanks entry = []) := by
  obtain ⟨before, word, due⟩ := ProgramError.exists_isDueTo failed located
  constructor
  · have notBlank : entryText entry ≠ "" := by
      intro blank
      obtain ⟨behind, split⟩ := due.exists_behind
      rw [blank] at split
      simp [due.solid.1] at split
    have answer : reply settings entry = settings.evaluate (entryText entry) := by
      rw [reply, if_neg notBlank, program]
    obtain ⟨echo, printed, quiet⟩ := exists_evaluate failed located
    refine ⟨_, echo, exchange_of_entry settings isEntry inputs, ?_, quiet,
      ProgramError.isNamedBy_message located⟩
    rw [answer, printed]
  · obtain ⟨part, typed, moved⟩ := exists_part_of_isDueTo isEntry oneLine due
    obtain ⟨line, column⟩ := part.place_of_beyond (noFeed_leadingBlanks oneLine) moved
    exact ⟨before, word, part, due, typed, line, column, part.place_eq_iff line column⟩

def unbound : List String := ["  let x = (1", " + y) then"]

theorem isEntry_unbound : IsEntry unbound := by
  have first : Begins ["  let x = (1"] := begins_cons (by decide)
  exact (waits_nil.concat first (by decide)).isEntry (begins_cons (by decide)) (by decide)

theorem run_locates_error_unbound :
    IsEntry unbound ∧ (∀ line ∈ unbound, '\n' ∉ line.toList) ∧ command? unbound = none ∧
    Program.ofText false (entryText unbound) =
      .error (.grammar (.mismatch ⟨.kind .inWord, 8, some ⟨.thenWord, "then", ⟨2, 7⟩⟩⟩)) ∧
    leadingBlanks unbound = [' ', ' '] ∧
    ∃ part : LinePart unbound "then".toList, part.place = ⟨2, 7⟩ := by
  have oneLine : ∀ line ∈ unbound, '\n' ∉ line.toList := by decide
  have program : command? unbound = none := by decide
  have failed : Program.ofText false (entryText unbound) =
      .error (.grammar (.mismatch ⟨.kind .inWord, 8, some ⟨.thenWord, "then", ⟨2, 7⟩⟩⟩)) := by
    decide +kernel
  obtain ⟨_, before, word, part, due, _, line, _, same⟩ :=
    run_locates_error .initial isEntry_unbound oneLine program failed rfl []
  obtain rfl := due.word_eq rfl
  have lower : part.above ≠ [] := by
    intro top
    simp [LinePart.place, top] at line
  exact ⟨isEntry_unbound, oneLine, program, failed, by decide, part, (same.mpr (.inl lower)).symm⟩

/-- The only sign of the line is in column 3, and the message names column 1. -/
theorem transcript_misplaces_indented :
    IsEntry ["  @"] ∧ command? ["  @"] = none ∧
    ((transcript .initial [.line "  @"]).exchanges.map Exchange.output).head? =
      some "[error] >>>\nUnexpected character '@' at line 1, col 1\n" ∧
    ∀ part : LinePart ["  @"] ['@'], part.place = ⟨1, 3⟩ := by
  have isEntry : IsEntry ["  @"] := waits_nil.isEntry (begins_cons (by decide)) (by decide)
  refine ⟨isEntry, by decide, by decide +kernel, ?_⟩
  rintro ⟨above, before, behind, below, lossless⟩
  have single : above = [] ∧ below = [] := by
    have count := congrArg List.length lossless
    simp only [List.length_append, List.length_cons, List.length_nil] at count
    exact ⟨List.length_eq_zero_iff.mp (by omega), List.length_eq_zero_iff.mp (by omega)⟩
  obtain ⟨rfl, rfl⟩ := single
  have chars : [' ', ' ', '@'] = before ++ (['@'] ++ behind) :=
    (congrArg String.toList (List.cons.inj lossless).1).trans String.toList_ofList
  have column : before.length = 2 := by
    rcases before with _ | ⟨a, _ | ⟨b, _ | ⟨c, more⟩⟩⟩ <;> simp at chars ⊢
  simp [LinePart.place, column]

end Session

end Funlet
