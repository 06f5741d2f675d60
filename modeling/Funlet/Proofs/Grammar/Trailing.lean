import Funlet.Grammar.Stepwise
import Funlet.Proofs.Grammar.Acceptance

/-!
# Tokens after a program

Reading that is not strict stops where a program ends and does not look further than at the next
token.  The tokens it passes are the longest front of the list that is a program, so that strict
reading, which refuses whatever is left, differs from it in nothing else.
-/

set_option autoImplicit false

namespace Funlet

namespace Grammar

variable {levels : Nat} {tokens rest : List Token}

/-- Strict reading differs from the other one in that it refuses tokens that are left. -/
theorem program_true_of_ok {tree : Expr} (read : program false levels tokens = .ok tree rest) :
    program true levels tokens =
      if rest.isEmpty then .ok tree rest else .error (.unexpected .endOfInput rest) rest := by
  cases inside : expression levels tokens with
  | ok other left =>
    have plain : program false levels tokens = .ok other left := bind_ok inside
    obtain ⟨rfl, rfl⟩ := EStateM.Result.ok.inj (plain.symm.trans read)
    rw [program, bind_ok inside, get_bind]
    cases left <;> rfl
  | error fault left =>
    have plain : program false levels tokens = .error fault left := bind_error inside
    rw [plain] at read
    cases read

theorem program_true_of_error {fault : Fault}
    (failed : program false levels tokens = .error fault rest) :
    program true levels tokens = .error fault rest := by
  cases inside : expression levels tokens with
  | ok other left =>
    have plain : program false levels tokens = .ok other left := bind_ok inside
    rw [plain] at failed
    cases failed
  | error other left =>
    have plain : program false levels tokens = .error other left := bind_error inside
    have strictly : program true levels tokens = .error other left := bind_error inside
    rw [strictly, ← plain, failed]

/-- The tokens that are read as a program are so before any others that do not go on with it. -/
theorem program_of_front {strict : Bool} {front others : List Token} {tree : Expr}
    (read : program false levels (front ++ rest) = .ok tree rest)
    (ends : Ends .expression rest → Ends .expression others)
    (used : strict = true → others = []) :
    program strict levels (front ++ others) = .ok tree others := by
  obtain ⟨phrase, split, greedy, stops, _, fits, rfl⟩ := exists_fits_of_program read
  obtain rfl := List.append_cancel_right split
  exact program_of_fits greedy (ends stops) used fits

theorem length_le_of_program {front : List Token} {tree : Expr}
    (read : program false levels (front ++ rest) = .ok tree rest)
    {longer : Phrase .expression} {more : List Token}
    (begins : front ++ rest = longer.tokens ++ more) : longer.tokens.length ≤ front.length := by
  obtain ⟨phrase, split, _, ends, _⟩ := exists_fits_of_program read
  obtain rfl := List.append_cancel_right split
  have wide : EndsAfter (phrase.tokens ++ rest) phrase.tokens.length := by
    rw [EndsAfter, List.drop_left]
    exact ends
  exact length_le_of_endsAfter ⟨longer, more, begins, rfl⟩ ⟨phrase, rest, rfl, rfl⟩ wide

end Grammar

namespace Parser

open Grammar

variable {strict : Bool} {tokens rest : List Token}

def parse (strict : Bool) (tokens : List Token) : Except RequestError Answer × Parser :=
  (ofTokens strict tokens).perform .program

theorem parse_of_ok {tree : Expr} (read : program strict maxNesting tokens = .ok tree rest) :
    parse strict tokens =
      (.ok (.tree tree), ⟨tokens, strict, tokens.length - rest.length, 0⟩) := by
  have run : (ofTokens strict tokens).run (program strict maxNesting) =
      (.ok (.tree tree), (ofTokens strict tokens).leaving rest.length) := by
    simp only [Parser.run, Parser.rest, ofTokens, List.drop_zero, read]
  refine run.trans ?_
  simp [leaving, ofTokens, Parser.rest]

theorem parse_of_error {fault : Fault}
    (failed : program strict maxNesting tokens = .error fault rest) :
    parse strict tokens =
      (.error (.grammar (fault.locate tokens.length)),
        ⟨tokens, strict, tokens.length - rest.length, 0⟩) := by
  have run : (ofTokens strict tokens).run (program strict maxNesting) =
      (.error (.grammar (fault.locate tokens.length)),
        (ofTokens strict tokens).leaving rest.length) := by
    simp only [Parser.run, Parser.rest, ofTokens, List.drop_zero, failed]
  refine run.trans ?_
  simp [leaving, ofTokens, Parser.rest]

theorem exists_error_of_longer {front : List Token} {tree : Expr}
    (read : program false maxNesting (front ++ rest) = .ok tree rest) {count : Nat}
    (longer : front.length < count) (within : count ≤ (front ++ rest).length) :
    ∃ error, (parse true ((front ++ rest).take count)).1 = .error error := by
  cases outcome : program true maxNesting ((front ++ rest).take count) with
  | ok other left =>
    obtain ⟨phrase, split, _, _, used, _⟩ := exists_fits_of_program outcome
    obtain rfl := used rfl
    rw [List.append_nil] at split
    have begins : front ++ rest = phrase.tokens ++ (front ++ rest).drop count := by
      rw [← split, List.take_append_drop]
    have length := congrArg List.length split
    rw [List.length_take, Nat.min_eq_left within] at length
    have shorter := length_le_of_program read begins
    omega
  | error fault left => exact ⟨_, congrArg Prod.fst (parse_of_error outcome)⟩

/-- Of the tokens that are left only the first has an influence on what is read. -/
theorem parse_of_same_front {front more others : List Token} {token : Token} {tree : Expr}
    (read : program false maxNesting (front ++ token :: more) = .ok tree (token :: more))
    (same : others.take (front.length + 1) = (front ++ token :: more).take (front.length + 1)) :
    parse false others = (.ok (.tree tree), ⟨others, false, front.length, 0⟩) := by
  have passed : (front ++ [token]).length = front.length + 1 := by simp
  have begins : (front ++ token :: more).take (front.length + 1) = front ++ [token] := by
    rw [List.append_cons, List.take_left' passed]
  obtain ⟨after, rfl⟩ : ∃ after, others = front ++ token :: after := by
    refine ⟨others.drop (front.length + 1), ?_⟩
    rw [List.append_cons, ← begins, ← same, List.take_append_drop]
  have again : program false maxNesting (front ++ token :: after) = .ok tree (token :: after) :=
    program_of_front read ends_cons_congr (by simp)
  rw [parse_of_ok again, List.length_append, Nat.add_sub_cancel]

/-- Reading that is not strict passes the longest front of the tokens that strict reading accepts.
Strict reading of all tokens gives the same if nothing is left, and otherwise it refuses the first
token that is left; the tokens after that one have no influence.  What one way of reading reports as
an error, so does the other. -/
theorem parse_reads_longest_front (tokens : List Token) :
    (∀ tree after, parse false tokens = (.ok (.tree tree), after) →
      after.position ≤ tokens.length ∧
      (parse true (tokens.take after.position)).1 = .ok (.tree tree) ∧
      (∀ count, after.position < count → count ≤ tokens.length →
        ∃ error, (parse true (tokens.take count)).1 = .error error) ∧
      (after.position = tokens.length → (parse true tokens).1 = .ok (.tree tree)) ∧
      (after.position < tokens.length →
        (parse true tokens).1 =
          .error (.grammar (.mismatch ⟨.endOfInput, after.position, tokens[after.position]?⟩)) ∧
        ∀ others, others.take (after.position + 1) = tokens.take (after.position + 1) →
          parse false others = (.ok (.tree tree), { after with tokens := others }))) ∧
    ∀ error after, parse false tokens = (.error error, after) →
      (parse true tokens).1 = .error error := by
  cases outcome : program false maxNesting tokens with
  | ok tree rest =>
    obtain ⟨phrase, split, _⟩ := exists_phrase_of_program outcome
    generalize phrase.tokens = front at split
    subst split
    have passed : (front ++ rest).length - rest.length = front.length := by
      rw [List.length_append, Nat.add_sub_cancel]
    have accepted : program true maxNesting (front ++ []) = .ok tree [] :=
      program_of_front outcome (fun _ => trivial) (fun _ => rfl)
    rw [parse_of_ok outcome, passed]
    refine ⟨fun other after read => ?_, fun error after failed => ?_⟩
    · obtain ⟨sameTree, rfl⟩ := Prod.mk.inj read
      obtain rfl : tree = other := by simpa using sameTree
      refine ⟨by simp, ?_, fun count longer within => ?_, fun whole => ?_, fun beyond => ?_⟩
      · rw [List.append_nil] at accepted
        rw [List.take_left, parse_of_ok accepted]
      · exact exists_error_of_longer outcome longer within
      · have nothing : rest = [] := by
          have total : front.length = (front ++ rest).length := whole
          rw [List.length_append] at total
          exact List.length_eq_zero_iff.mp (by omega)
        subst nothing
        rw [parse_of_ok accepted]
      · cases rest with
        | nil => simp at beyond
        | cons token more =>
          refine ⟨?_, fun others same => parse_of_same_front outcome same⟩
          have refused : program true maxNesting (front ++ token :: more) =
              .error (.unexpected .endOfInput (token :: more)) (token :: more) :=
            program_true_of_ok outcome
          rw [parse_of_error refused, Fault.locate, passed]
          simp
    · simp at failed
  | error fault rest =>
    rw [parse_of_error outcome, parse_of_error (program_true_of_error outcome)]
    refine ⟨fun tree after read => ?_, fun error after failed => ?_⟩
    · simp at read
    · obtain ⟨failed, _⟩ := Prod.mk.inj failed
      exact failed

theorem parse_reads_longest_front_paren :
    parse false [⟨.name, "x", ⟨1, 1⟩⟩, ⟨.rightParen, ")", ⟨1, 2⟩⟩] =
        (.ok (.tree (.name "x")),
          ⟨[⟨.name, "x", ⟨1, 1⟩⟩, ⟨.rightParen, ")", ⟨1, 2⟩⟩], false, 1, 0⟩) ∧
      (parse true [⟨.name, "x", ⟨1, 1⟩⟩]).1 = .ok (.tree (.name "x")) ∧
      (parse true [⟨.name, "x", ⟨1, 1⟩⟩, ⟨.rightParen, ")", ⟨1, 2⟩⟩]).1 =
        .error (.grammar
          (.mismatch ⟨.endOfInput, 1, some ⟨.rightParen, ")", ⟨1, 2⟩⟩⟩)) := by
  have read : parse false [⟨.name, "x", ⟨1, 1⟩⟩, ⟨.rightParen, ")", ⟨1, 2⟩⟩] =
      (.ok (.tree (.name "x")),
        ⟨[⟨.name, "x", ⟨1, 1⟩⟩, ⟨.rightParen, ")", ⟨1, 2⟩⟩], false, 1, 0⟩) := rfl
  obtain ⟨_, accepted, _, _, refused⟩ := (parse_reads_longest_front _).1 _ _ read
  exact ⟨read, accepted, (refused (by decide)).1⟩

end Parser

end Funlet
