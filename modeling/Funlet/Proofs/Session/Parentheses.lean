import Funlet.Proofs.Session.Entries
import Funlet.Proofs.Source.RoundTrip
import Funlet.Proofs.Token.Balance
import Funlet.Proofs.Token.Layout

/-!
# Parentheses of a program

A session counts the parentheses of the lines typed, and the grammar matches them.  Both agree: in
the text of a program parentheses stand only as words of their own, every part at its front has
opened at least as many as it has closed, and the whole has closed them all.  So a session does not
wait for more after the last line of a program, and it does not wait in vain for lines that would
make a program of a text with a parenthesis too many.
-/

set_option autoImplicit false

namespace Funlet

/-! ## Counting in words -/

theorem parenBalance_eq (text : String) : parenBalance text = Text.balance text.toList := rfl

namespace Token

def weight (token : Token) : Int :=
  match token.kind with
  | .leftParen => 1
  | .rightParen => -1
  | _ => 0

theorem weight_eq_zero {token : Token} (notOpening : token.kind ≠ .leftParen)
    (notClosing : token.kind ≠ .rightParen) : token.weight = 0 := by
  unfold weight
  split
  · exact absurd ‹_› notOpening
  · exact absurd ‹_› notClosing
  · rfl

theorem IsWord.parentheses {token : Token} (word : token.IsWord) :
    (token.text.toList = ['('] ∧ token.weight = 1) ∨
      (token.text.toList = [')'] ∧ token.weight = -1) ∨
      (Text.Plain token.text.toList ∧ token.weight = 0) := by
  obtain ⟨ahead, found⟩ := word
  rcases Word.first?_cases found with
    ⟨_, _, _, _, inside, kind⟩ | ⟨_, _, shape, _, beforeDigits, afterDigits, kind⟩ | mark
  · have noMark : token.kind ≠ .leftParen ∧ token.kind ≠ .rightParen := by
      rw [kind, Word.nameKind]
      cases keyword : Word.keyword? token.text.toList with
      | none => simp
      | some other =>
        have kinds := Word.keyword?_kinds keyword
        constructor <;> rintro rfl <;> simp at kinds
    exact .inr (.inr ⟨Text.plain_of_isNameChar inside, weight_eq_zero noMark.1 noMark.2⟩)
  · refine .inr (.inr ⟨?_, weight_eq_zero (by simp [kind]) (by simp [kind])⟩)
    rw [shape]
    exact Text.plain_of_isLiteralChar fun c member =>
      isLiteralChar_of_mem beforeDigits afterDigits member
  · rcases Text.parentheses_of_mark? mark with ⟨text, kind⟩ | ⟨text, kind⟩ | ⟨plain, kinds⟩
    · exact .inl ⟨text, by simp [weight, kind]⟩
    · exact .inr (.inl ⟨text, by simp [weight, kind]⟩)
    · exact .inr (.inr ⟨plain, weight_eq_zero kinds.1 kinds.2⟩)

/-- A part at the front of a word adds what the whole word adds, or nothing yet. -/
theorem IsWord.balance_front {token : Token} (word : token.IsWord) {front : List Char}
    (begins : front <+: token.text.toList) :
    Text.balance front = 0 ∨ Text.balance front = token.weight := by
  rcases word.parentheses with ⟨text, weight⟩ | ⟨text, weight⟩ | ⟨plain, weight⟩
  · rw [text] at begins
    rw [weight]
    rcases Text.front_of_singleton begins with rfl | rfl
    · exact .inl rfl
    · exact .inr rfl
  · rw [text] at begins
    rw [weight]
    rcases Text.front_of_singleton begins with rfl | rfl
    · exact .inl rfl
    · exact .inr rfl
  · exact .inl (plain.front begins).balance_eq_zero

theorem IsWord.balance_text {token : Token} (word : token.IsWord) :
    Text.balance token.text.toList = token.weight := by
  rcases word.parentheses with ⟨text, weight⟩ | ⟨text, weight⟩ | ⟨plain, weight⟩
  · rw [text, weight]
    rfl
  · rw [text, weight]
    rfl
  · rw [weight, plain.balance_eq_zero]

def weights (tokens : List Token) : Int := (tokens.map weight).sum

@[simp]
theorem weights_nil : weights [] = 0 := rfl

@[simp]
theorem weights_cons (token : Token) (rest : List Token) :
    weights (token :: rest) = token.weight + weights rest := by
  simp [weights]

end Token

section Pieces

variable {pieces : List Piece} {last : List Char}
  (gaps : ∀ piece ∈ pieces, ∀ c ∈ piece.gap, Text.isBlank c = true)
  (lastGap : ∀ c ∈ last, Text.isBlank c = true) (words : ∀ piece ∈ pieces, piece.token.IsWord)

include gaps lastGap words

/-- The parentheses of a text are those of its tokens. -/
theorem balance_pieces :
    Text.balance (pieces.flatMap Piece.chars ++ last) =
      Token.weights (pieces.map Piece.token) := by
  induction pieces with
  | nil => exact (Text.plain_of_blank lastGap).balance_eq_zero
  | cons piece more ih =>
    obtain ⟨gap, moreGaps⟩ := List.forall_mem_cons.mp gaps
    obtain ⟨word, moreWords⟩ := List.forall_mem_cons.mp words
    rw [List.flatMap_cons, Piece.chars, List.append_assoc, List.append_assoc, Text.balance_append,
      Text.balance_append, (Text.plain_of_blank gap).balance_eq_zero, word.balance_text,
      ih moreGaps moreWords, List.map_cons, Token.weights_cons, Int.zero_add]

/-- A part at the front of a text holds, parentheses considered, some of the tokens of the text. -/
theorem exists_weights_of_front {front : List Char}
    (begins : front <+: pieces.flatMap Piece.chars ++ last) :
    ∃ tokens, tokens <+: pieces.map Piece.token ∧ Text.balance front = Token.weights tokens := by
  induction pieces generalizing front with
  | nil =>
    have plain := (Text.plain_of_blank lastGap).front begins
    exact ⟨[], List.nil_prefix, plain.balance_eq_zero⟩
  | cons piece more ih =>
    obtain ⟨gap, moreGaps⟩ := List.forall_mem_cons.mp gaps
    obtain ⟨word, moreWords⟩ := List.forall_mem_cons.mp words
    have gapPlain := Text.plain_of_blank gap
    rw [List.flatMap_cons, Piece.chars, List.append_assoc, List.append_assoc] at begins
    -- The part ends in the gap of the first piece, in its word or behind it.
    rcases Text.front_of_append begins with inGap | ⟨behindGap, rfl, shown⟩
    · exact ⟨[], List.nil_prefix, (gapPlain.front inGap).balance_eq_zero⟩
    · rcases Text.front_of_append shown with inWord | ⟨behindWord, rfl, shownMore⟩
      · rcases word.balance_front inWord with none | whole
        · refine ⟨[], List.nil_prefix, ?_⟩
          rw [Text.balance_append, gapPlain.balance_eq_zero, none]
          rfl
        · refine ⟨[piece.token], by simp, ?_⟩
          rw [Text.balance_append, gapPlain.balance_eq_zero, whole]
          simp
      · obtain ⟨tokens, front, balance⟩ := ih moreGaps moreWords shownMore
        refine ⟨piece.token :: tokens, ?_, ?_⟩
        · rw [List.map_cons, List.cons_prefix_cons]
          exact ⟨rfl, front⟩
        · rw [Text.balance_append, Text.balance_append, gapPlain.balance_eq_zero, balance,
            word.balance_text, Token.weights_cons, Int.zero_add]

end Pieces

/-! ## Counting in phrases -/

namespace Grammar.Outlook

def depth (outlook : Outlook) : Int := outlook.opened.count .paren

theorem depth_intoAtom {opened : List Bracket} {token : Token} {next : Outlook}
    (taken : intoAtom opened token = some next) :
    next.depth = opened.count .paren + token.weight := by
  unfold intoAtom at taken
  split at taken <;> simp only [Option.some.injEq, reduceCtorEq] at taken <;> subst taken <;>
    simp_all [depth, Token.weight]

theorem depth_close {opened : List Bracket} {token : Token} {next : Outlook}
    (taken : close opened token = some next) :
    next.depth = opened.count .paren + token.weight := by
  cases opened with
  | nil => simp [close] at taken
  | cons bracket outer =>
    simp only [close, Option.ite_none_right_eq_some, Option.some.injEq] at taken
    obtain ⟨kind, rfl⟩ := taken
    cases bracket <;> simp_all [depth, closed, Token.weight, Bracket.closer]

/-- A token opens or closes as many parentheses as it counts for. -/
theorem depth_step {outlook next : Outlook} {token : Token}
    (taken : outlook.step token = some next) : next.depth = outlook.depth + token.weight := by
  obtain ⟨demand, opened⟩ := outlook
  cases demand with
  | expression =>
    simp only [step] at taken
    split_ifs at taken with isLet isIf
    · obtain rfl := Option.some.inj taken
      simp [depth, Token.weight, isLet]
    · obtain rfl := Option.some.inj taken
      simp [depth, Token.weight, isIf]
    · exact depth_intoAtom taken
  | operand => exact depth_intoAtom taken
  | bound | equals | parameter | arrow =>
    simp only [step, Option.ite_none_right_eq_some, Option.some.injEq] at taken
    obtain ⟨kind, rfl⟩ := taken
    simp [depth, Token.weight, kind]
  | more =>
    simp only [step] at taken
    split_ifs at taken with isAtom isOperator
    · exact depth_intoAtom taken
    · obtain rfl := Option.some.inj taken
      have kind : token.kind = .operator := by
        simp only [startsOperator, Bool.and_eq_true, beq_iff_eq] at isOperator
        exact isOperator.1
      simp [depth, Token.weight, kind]
    · exact depth_close taken

theorem depth_run {outlook next : Outlook} {tokens : List Token}
    (taken : outlook.run tokens = some next) :
    next.depth = outlook.depth + Token.weights tokens := by
  induction tokens generalizing outlook with
  | nil =>
    obtain rfl := Option.some.inj taken
    simp
  | cons token rest ih =>
    rw [run_cons] at taken
    obtain ⟨after, first, more⟩ := Option.bind_eq_some_iff.mp taken
    rw [ih more, depth_step first, Token.weights_cons]
    omega

end Grammar.Outlook

open Grammar in
/-- The tokens of a program count the parentheses that are open: never less than none, and none
behind the last token. -/
theorem weights_of_derives {tokens : List Token} (derives : Derives .expression tokens) :
    Token.weights tokens = 0 ∧ ∀ front, front <+: tokens → 0 ≤ Token.weights front := by
  obtain ⟨phrase, rfl⟩ := derives
  have ran : Outlook.run .start phrase.tokens = some .finish := Outlook.run_phrase phrase []
  constructor
  · have depth := Outlook.depth_run ran
    simpa [Outlook.depth, Outlook.start, Outlook.finish] using depth.symm
  · rintro front ⟨back, whole⟩
    rw [← whole, Outlook.run_append] at ran
    obtain ⟨next, ranFront, _⟩ := Option.bind_eq_some_iff.mp ran
    have depth := Outlook.depth_run ranFront
    simp only [Outlook.depth, Outlook.start, List.count_nil] at depth
    omega

/-- In the text of a program the parentheses are matched. -/
theorem balance_of_ofText {text : String} {tree : Expr}
    (read : Program.ofText true text = .ok tree) :
    Text.balance text.toList = 0 ∧
      ∀ front, front <+: text.toList → 0 ≤ Text.balance front := by
  obtain ⟨tokens, lexed, outcome⟩ := Program.exists_tokens_of_ofText read
  obtain ⟨none, never⟩ := weights_of_derives (Program.derives_of_ofTokens outcome)
  have words := isWord_of_tokenize lexed
  obtain ⟨pieces, last, rfl, layout⟩ := tokenize_eq_ok_iff_layout.mp lexed
  rw [layout.lossless]
  have pieceWords : ∀ piece ∈ pieces, piece.token.IsWord :=
    fun piece member => words _ (List.mem_map_of_mem member)
  constructor
  · rw [balance_pieces layout.gaps layout.lastGap pieceWords, none]
  · intro front begins
    obtain ⟨tokens, shown, balance⟩ :=
      exists_weights_of_front layout.gaps layout.lastGap pieceWords begins
    rw [balance]
    exact never tokens shown

/-! ## Counting in sessions -/

namespace Session

theorem balance_append (first second : List String) :
    balance (first ++ second) = balance first + balance second := by
  induction first with
  | nil => simp [balance]
  | cons line rest ih =>
    simp only [List.cons_append, balance, ih]
    omega

theorem balance_flatten_le {entries : List (List String)}
    (complete : ∀ entry ∈ entries, balance entry ≤ 0) : balance entries.flatten ≤ 0 := by
  induction entries with
  | nil => simp [balance]
  | cons entry more ih =>
    obtain ⟨first, rest⟩ := List.forall_mem_cons.mp complete
    have := ih rest
    rw [List.flatten_cons, balance_append]
    omega

/-- The lines of a text stand between line feeds, and one line feed may stand after the last. -/
def AreLinesOf (lines : List String) (text : String) : Prop :=
  "\n".intercalate lines = text ∨ "\n".intercalate lines ++ "\n" = text

theorem balance_eq_of_intercalate (lines : List String) :
    balance lines = parenBalance ("\n".intercalate lines) := by
  induction lines with
  | nil => rfl
  | cons line more ih =>
    cases more with
    | nil => simp [balance]
    | cons next rest =>
      rw [balance, ih, String.intercalate_cons_cons, parenBalance_eq, parenBalance_eq,
        parenBalance_eq, String.toList_append, String.toList_append, Text.balance_append,
        Text.balance_append]
      simp [Text.balance]

theorem exists_intercalate_append (lines more : List String) :
    ∃ tail, "\n".intercalate (lines ++ more) = "\n".intercalate lines ++ tail := by
  by_cases noLines : lines = []
  · exact ⟨"\n".intercalate more, by simp [noLines]⟩
  · by_cases noMore : more = []
    · exact ⟨"", by simp [noMore]⟩
    · refine ⟨"\n" ++ "\n".intercalate more, ?_⟩
      rw [String.intercalate_append_of_ne_nil noLines noMore, String.append_assoc]

section Lines

variable {text : String} {lines : List String} (areLines : AreLinesOf lines text)

include areLines

theorem AreLinesOf.balance_eq : balance lines = parenBalance text := by
  rcases areLines with rfl | rfl
  · exact balance_eq_of_intercalate lines
  · rw [balance_eq_of_intercalate, parenBalance_eq, parenBalance_eq, String.toList_append,
      Text.balance_append]
    simp [Text.balance]

/-- Lines at the front of a text count the parentheses of a part at its front. -/
theorem AreLinesOf.exists_front {front back : List String} (split : front ++ back = lines) :
    ∃ part, part <+: text.toList ∧ balance front = Text.balance part := by
  refine ⟨("\n".intercalate front).toList, ?_, balance_eq_of_intercalate front⟩
  obtain ⟨tail, whole⟩ := exists_intercalate_append front back
  rw [split] at whole
  rcases areLines with rfl | rfl
  · exact ⟨tail.toList, by rw [whole, String.toList_append]⟩
  · exact ⟨tail.toList ++ ['\n'], by simp [whole]⟩

end Lines

/-- Lines that open no more parentheses than they close, and close none too early, leave no entry
unfinished. -/
theorem Course.pending_eq_nil {lines : List String} (course : Course (lines.map .line))
    (closed : balance lines = 0)
    (never : ∀ front back, front ++ back = lines → 0 ≤ balance front) : course.pending = [] := by
  obtain ⟨entries, pending, rest, lossless, isEntry, waits, ends⟩ := course
  cases ends with
  | exit => rfl
  | interrupted unread =>
    have typed : Input.interrupt ∈ lines.map Input.line := by
      rw [← lossless]
      simp
    simp at typed
  | exhausted =>
    rw [List.append_nil] at lossless
    have typed : entries.flatten ++ pending = lines :=
      List.map_injective_iff.mpr (fun _ _ same => Input.line.inj same) lossless
    have answered := balance_flatten_le fun entry member => (isEntry entry member).complete
    have atLeast := never entries.flatten pending typed
    rw [← typed, balance_append] at closed
    by_contra filled
    have := waits.unbalanced pending (List.prefix_refl pending) filled
    omega

theorem prompt_of_pending_eq_nil [Host] {settings : Settings} {inputs : List Input}
    (course : Course inputs) (finished : course.pending = []) :
    (transcript settings inputs).exchanges.getLast?.map Exchange.prompt = some ">>> " := by
  rw [transcript_of_course settings course]
  simp [Course.transcript, finished, promptAfter]

end Session

/-- In the text of a program every part at the front has opened as many parentheses as it has
closed, or more, and the whole text has closed them all.  So when the lines of the text are typed
they are complete at the last line at the latest, after which a session asks for a new entry; and
lines that close more parentheses than they open are the front of no program. -/
theorem Program.parentheses_match_of_ofText [Host] {text : String} {tree : Expr}
    (read : ofText true text = .ok tree) :
    (parenBalance text = 0 ∧ ∀ front back, front ++ back = text → 0 ≤ parenBalance front) ∧
    (∀ lines, Session.AreLinesOf lines text → Session.isComplete lines = true ∧
      ∀ settings, (Session.transcript settings (lines.map .line)).exchanges.getLast?.map
        Exchange.prompt = some ">>> ") ∧
    ∀ lines more, Session.balance lines < 0 → ¬ Session.AreLinesOf (lines ++ more) text := by
  obtain ⟨closed, never⟩ := balance_of_ofText read
  refine ⟨⟨closed, ?_⟩, ?_, ?_⟩
  · rintro front back rfl
    exact never front.toList (by simp)
  · intro lines areLines
    have zero : Session.balance lines = 0 := areLines.balance_eq.trans closed
    refine ⟨by simp [Session.isComplete, zero], fun settings => ?_⟩
    obtain ⟨course⟩ := Session.exists_course_of_waits Session.waits_nil (lines.map Input.line)
    refine Session.prompt_of_pending_eq_nil course (course.pending_eq_nil zero ?_)
    intro front back split
    obtain ⟨part, shown, balance⟩ := areLines.exists_front split
    rw [balance]
    exact never part shown
  · intro lines more negative areLines
    obtain ⟨part, shown, balance⟩ := areLines.exists_front (rfl : lines ++ more = _)
    have := never part shown
    omega

theorem Program.parentheses_match_of_ofText_lines :
    ∃ tree, ofText true "(fun x ->\n  x + 1) 2" = .ok tree ∧
      parenBalance "(fun x ->\n  x + 1) 2" = 0 ∧ 0 ≤ parenBalance "(fun x ->" ∧
      Session.isComplete ["(fun x ->", "  x + 1) 2"] = true ∧
      ¬ Session.AreLinesOf (["x)"] ++ ["("]) "(fun x ->\n  x + 1) 2" := by
  have accepted : (ofText true "(fun x ->\n  x + 1) 2").toOption.isSome = true := by decide +kernel
  cases read : ofText true "(fun x ->\n  x + 1) 2" with
  | error error => simp [read, Except.toOption] at accepted
  | ok tree =>
    obtain ⟨⟨closed, never⟩, complete, negative⟩ := parentheses_match_of_ofText read
    refine ⟨tree, rfl, closed, never "(fun x ->" "\n  x + 1) 2" (by decide), ?_, ?_⟩
    · exact (complete ["(fun x ->", "  x + 1) 2"] (.inl (by decide))).1
    · exact negative ["x)"] ["("] (by decide)

end Funlet
