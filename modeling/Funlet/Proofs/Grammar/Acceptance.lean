import Funlet.Grammar.Program
import Funlet.Proofs.Grammar.Limits
import Funlet.Proofs.Grammar.Tracking
import Funlet.Proofs.Grammar.Widest

/-!
# The programs that are accepted

A list of words is read as a program if and only if the grammar derives it, limits aside, and the
tree read is that of the derivation in which every function's body is the longest.  Where reading
fails for another reason than a limit, it fails at the first word after which no program is possible
any more, and what it asks for instead would have led on.
-/

set_option autoImplicit false

namespace Funlet

namespace Grammar

theorem reads_program (strict : Bool) {phrase : Phrase .expression} {rest : List Token}
    (greedy : phrase.GreedyBefore rest) (ends : Ends .expression rest)
    (used : strict = true → rest = []) (levels : Nat) :
    Settles (phrase.violation levels rest) (program strict levels (phrase.tokens ++ rest))
      (.ok phrase.tree rest) := by
  refine (reads_phrase phrase greedy ends levels).bind_none ?_
  rw [get_bind]
  cases strict with
  | false => rfl
  | true =>
    obtain rfl := used rfl
    rfl

/-- Words are read as a phrase, with what follows it, if they are read as a program. -/
theorem exists_phrase_of_program {strict : Bool} {levels : Nat} {tokens rest : List Token}
    {tree : Expr} (read : program strict levels tokens = .ok tree rest) :
    ∃ phrase : Phrase .expression, tokens = phrase.tokens ++ rest ∧ phrase.GreedyBefore [] ∧
      Ends .expression rest ∧ (strict = true → rest = []) := by
  have tracks := tracks_program strict levels tokens
  rw [read] at tracks
  obtain ⟨used, rfl, ran, ends, all⟩ := tracks
  obtain ⟨phrase, rfl, greedy⟩ := exists_greedy_of_accepts ran
  exact ⟨phrase, rfl, greedy, ends, all⟩

theorem program_of_fits {strict : Bool} {levels : Nat} {phrase : Phrase .expression}
    {rest : List Token} (greedy : phrase.GreedyBefore []) (ends : Ends .expression rest)
    (used : strict = true → rest = []) (fits : phrase.Fits levels) :
    program strict levels (phrase.tokens ++ rest) = .ok phrase.tree rest := by
  have settles := reads_program strict (greedy.congr fun _ => ends) ends used levels
  rwa [(phrase.violation_eq_none_iff _ _).mpr fits] at settles

/-- What is read as a program is a phrase within the limits. -/
theorem exists_fits_of_program {strict : Bool} {levels : Nat} {tokens rest : List Token}
    {tree : Expr} (read : program strict levels tokens = .ok tree rest) :
    ∃ phrase : Phrase .expression, tokens = phrase.tokens ++ rest ∧ phrase.GreedyBefore [] ∧
      Ends .expression rest ∧ (strict = true → rest = []) ∧ phrase.Fits levels ∧
      phrase.tree = tree := by
  obtain ⟨phrase, rfl, greedy, ends, used⟩ := exists_phrase_of_program read
  have settles := reads_program strict (greedy.congr fun _ => ends) ends used levels
  rw [read] at settles
  cases found : phrase.violation levels rest with
  | some fault =>
    rw [found] at settles
    obtain ⟨_, failed⟩ := settles
    simp at failed
  | none =>
    rw [found] at settles
    obtain ⟨sameTree, _⟩ := EStateM.Result.ok.inj settles
    exact ⟨phrase, rfl, greedy, ends, used, (phrase.violation_eq_none_iff _ _).mp found,
      sameTree.symm⟩

theorem Oversteps.exists_isLimit {tokens : List Token} {fault : Fault}
    (oversteps : Oversteps tokens fault) (words : ∀ token ∈ tokens, token.IsWord) :
    ∃ expected rest, fault = .unexpected expected rest ∧ expected.isLimit = true := by
  cases fault with
  | unreadable text =>
    obtain ⟨token, member, number, rfl, unreadable⟩ := oversteps
    obtain ⟨size, read⟩ := (words token member).exists_readReal? number
    simp [unreadable] at read
  | unexpected expected rest =>
    refine ⟨expected, rest, rfl, ?_⟩
    rcases oversteps with rfl | ⟨rfl, _⟩
    · rfl
    · rfl

end Grammar

namespace Program

open Grammar

variable {strict : Bool} {tokens rest : List Token}

theorem ofTokens_of_ok {tree : Expr} (read : program strict maxNesting tokens = .ok tree rest) :
    ofTokens strict tokens = .ok tree := by
  unfold ofTokens ofTokensNoted
  rw [read]
  cases rest <;> rfl

theorem ofTokens_of_error {fault : Fault}
    (read : program strict maxNesting tokens = .error fault rest) :
    ofTokens strict tokens = .error (fault.locate tokens.length) := by
  unfold ofTokens ofTokensNoted
  rw [read]

theorem ofTokens_cases (strict : Bool) (tokens : List Token) :
    (∃ tree rest, program strict maxNesting tokens = .ok tree rest ∧
      ofTokens strict tokens = .ok tree) ∨
    ∃ fault rest, program strict maxNesting tokens = .error fault rest ∧
      ofTokens strict tokens = .error (fault.locate tokens.length) := by
  cases read : program strict maxNesting tokens with
  | ok tree rest => exact .inl ⟨tree, rest, rfl, ofTokens_of_ok read⟩
  | error fault rest => exact .inr ⟨fault, rest, rfl, ofTokens_of_error read⟩

theorem ofTokens_of_fits {strict : Bool} {phrase : Phrase .expression}
    (greedy : phrase.GreedyBefore []) (fits : phrase.Fits maxNesting) :
    ofTokens strict phrase.tokens = .ok phrase.tree := by
  have read : program strict maxNesting (phrase.tokens ++ []) = .ok phrase.tree [] :=
    program_of_fits greedy trivial (fun _ => rfl) fits
  rw [List.append_nil] at read
  exact ofTokens_of_ok read

theorem exists_oversteps_of_not_fits {phrase : Phrase .expression}
    (greedy : phrase.GreedyBefore []) (beyond : ¬ phrase.Fits maxNesting) :
    ∃ fault, Oversteps phrase.tokens fault ∧
      ofTokens true phrase.tokens = .error (fault.locate phrase.tokens.length) := by
  have settles := reads_program true greedy trivial (fun _ => rfl) maxNesting
  rw [List.append_nil] at settles
  cases found : phrase.violation maxNesting [] with
  | none => exact absurd ((phrase.violation_eq_none_iff _ _).mp found) beyond
  | some fault =>
    rw [found] at settles
    obtain ⟨rest, read⟩ := settles
    exact ⟨fault, phrase.oversteps_of_violation found, ofTokens_of_error read⟩

theorem ofTokens_of_words (strict : Bool) (words : ∀ token ∈ tokens, token.IsWord) :
    (∃ tree, ofTokens strict tokens = .ok tree) ∨
      ∃ mismatch, ofTokens strict tokens = .error (.mismatch mismatch) := by
  rcases ofTokens_cases strict tokens with ⟨tree, _, _, outcome⟩ | ⟨fault, rest, read, outcome⟩
  · exact .inl ⟨tree, outcome⟩
  · have tracks := tracks_program strict maxNesting tokens
    rw [read] at tracks
    cases fault with
    | unexpected expected left => exact .inr ⟨_, outcome⟩
    | unreadable text =>
      obtain ⟨token, member, number, rfl, unreadable⟩ := tracks
      obtain ⟨size, reads⟩ := (words token member).exists_readReal? number
      simp [unreadable] at reads

theorem derives_of_ofTokens {tree : Expr} (outcome : ofTokens true tokens = .ok tree) :
    Derives .expression tokens := by
  rcases ofTokens_cases true tokens with ⟨_, rest, read, _⟩ | ⟨fault, _, _, fails⟩
  · obtain ⟨phrase, rfl, _, _, all⟩ := exists_phrase_of_program read
    obtain rfl := all rfl
    exact ⟨phrase, by simp⟩
  · simp [fails] at outcome

/-- The words of a text are read if and only if the grammar derives them and no limit is
overstepped.  The tree read is that of the phrase in which the bodies of functions are the longest,
and the limits are those of this phrase. -/
theorem ofTokens_accepts_derivable {text : String} (lexed : tokenize text = .ok tokens) :
    (∀ phrase : Phrase .expression, phrase.tokens = tokens → phrase.Widest →
      (phrase.Fits maxNesting → ofTokens true tokens = .ok phrase.tree) ∧
      (¬ phrase.Fits maxNesting → ∃ mismatch,
        ofTokens true tokens = .error (.mismatch mismatch) ∧
          mismatch.expected.isLimit = true)) ∧
    (Derives .expression tokens → ∃ phrase : Phrase .expression,
      phrase.tokens = tokens ∧ phrase.Widest) ∧
    (¬ Derives .expression tokens →
      ∃ mismatch, ofTokens true tokens = .error (.mismatch mismatch)) := by
  have words := isWord_of_tokenize lexed
  refine ⟨?_, ?_, ?_⟩
  · rintro phrase rfl widest
    have greedy := greedy_of_widest widest
    refine ⟨fun fits => ofTokens_of_fits greedy fits, fun beyond => ?_⟩
    obtain ⟨fault, oversteps, failed⟩ := exists_oversteps_of_not_fits greedy beyond
    obtain ⟨expected, rest, rfl, limit⟩ := oversteps.exists_isLimit words
    exact ⟨_, failed, limit⟩
  · intro derives
    obtain ⟨phrase, tokens, greedy⟩ := exists_greedy_of_accepts (derives_iff_accepts.mp derives)
    exact ⟨phrase, tokens, widest_of_greedy greedy⟩
  · intro underivable
    rcases ofTokens_of_words true words with ⟨tree, outcome⟩ | failed
    · exact absurd (derives_of_ofTokens outcome) underivable
    · exact failed

theorem ofTokens_accepts_application :
    ofTokens true [⟨.name, "f", ⟨1, 1⟩⟩, ⟨.name, "x", ⟨1, 3⟩⟩] =
      .ok (.apply (.name "f") (.name "x")) := by
  have lexed : tokenize "f x" = .ok [⟨.name, "f", ⟨1, 1⟩⟩, ⟨.name, "x", ⟨1, 3⟩⟩] := by
    decide +kernel
  let function : Phrase .atom := .name ⟨⟨.name, "f", ⟨1, 1⟩⟩, rfl⟩
  let argument : Phrase .atom := .name ⟨⟨.name, "x", ⟨1, 3⟩⟩, rfl⟩
  let comparison : Phrase .comparison :=
    .inner rfl (.inner rfl (.inner rfl (.apply (.inner rfl function) argument)))
  let phrase : Phrase .expression := .inner rfl (.inner rfl (.inner rfl comparison))
  have fits : phrase.Fits maxNesting := by
    refine ⟨by decide, by decide, ?_⟩
    simp [phrase, comparison, function, argument, Token.HasFiniteValue]
  have greedy : phrase.GreedyBefore [] := ⟨trivial, trivial⟩
  exact ((ofTokens_accepts_derivable lexed).1 phrase rfl (widest_of_greedy greedy)).1 fits

end Program

end Funlet
