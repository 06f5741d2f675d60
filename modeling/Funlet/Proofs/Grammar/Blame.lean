import Funlet.Proofs.Grammar.Acceptance

/-!
# Where a program goes wrong

A strict reading that meets no limit fails at the first token after which no program is possible any
more.  What comes before it can be completed to a program, and what is asked for in its place would
have led on.
-/

set_option autoImplicit false

namespace Funlet

/-- A token that is what was required; nothing comes at the end of the input. -/
def Expectation.Admits : Expectation → Token → Prop
  | .kind required, token => token.kind = required
  | .text required, token => token.kind = .operator ∧ token.text = required
  | .expression, token => Grammar.startsAtom [token] = true
  | _, _ => False

namespace Grammar

def Viable (tokens : List Token) : Prop :=
  ∃ more : List Token, Derives .expression (tokens ++ more)

/-- Tokens are the front of a program if and only if they lead to an outlook. -/
theorem viable_iff_run {tokens : List Token} :
    Viable tokens ↔ ∃ outlook, Outlook.start.run tokens = some outlook := by
  constructor
  · rintro ⟨more, derives⟩
    have ran : Outlook.start.run (tokens ++ more) = some .finish := derives_iff_accepts.mp derives
    rw [Outlook.run_append] at ran
    obtain ⟨outlook, ran, _⟩ := Option.bind_eq_some_iff.mp ran
    exact ⟨outlook, ran⟩
  · rintro ⟨outlook, ran⟩
    obtain ⟨more, _, completes⟩ := outlook.completes
    exact ⟨more, derives_iff_accepts.mpr ((Outlook.run_append_of_run ran more).trans completes)⟩

namespace Outlook

theorem exists_step_of_admits {outlook : Outlook} {token : Token}
    (admits : outlook.expectation.Admits token) : ∃ next, outlook.step token = some next := by
  obtain ⟨demand, opened⟩ := outlook
  have atom (starts : startsAtom [token] = true) :
      ∃ next, step ⟨.operand, opened⟩ token = some next := by
    simp only [startsAtom] at starts
    simp only [step, intoAtom]
    split at starts <;> simp_all
  cases demand with
  | expression =>
    obtain ⟨next, taken⟩ := atom admits
    exact ⟨next, step_expression_of_operand taken⟩
  | operand => exact atom admits
  | bound => exact ⟨_, if_pos admits⟩
  | equals => exact ⟨_, if_pos admits⟩
  | parameter => exact ⟨_, if_pos admits⟩
  | arrow => exact ⟨_, if_pos admits⟩
  | more =>
    cases opened with
    | nil => exact False.elim admits
    | cons bracket outer => exact ⟨_, step_closer bracket admits outer⟩

theorem exists_admitted {outlook : Outlook} (unfinished : outlook ≠ .finish) :
    ∃ token : Token, token.IsWord ∧ outlook.expectation.Admits token := by
  obtain ⟨demand, opened⟩ := outlook
  cases demand with
  | expression => exact ⟨_, isWord_sample_name, rfl⟩
  | operand => exact ⟨_, isWord_sample_name, rfl⟩
  | bound => exact ⟨_, isWord_sample_name, rfl⟩
  | equals => exact ⟨_, isWord_sample_equals, rfl, rfl⟩
  | parameter => exact ⟨_, isWord_sample_name, rfl⟩
  | arrow => exact ⟨_, isWord_sample_arrow, rfl⟩
  | more =>
    cases opened with
    | nil => exact absurd rfl unfinished
    | cons bracket outer => exact ⟨_, isWord_sampleCloser bracket, by cases bracket <;> rfl⟩

theorem expectation_eq_endOfInput_iff {outlook : Outlook} :
    outlook.expectation = .endOfInput ↔ outlook = .finish := by
  obtain ⟨demand, opened⟩ := outlook
  cases demand <;> cases opened <;> simp [expectation, finish]

end Outlook

end Grammar

open Grammar

/-- What a mismatch in some tokens tells: the tokens before it are the front of a program, with the
token at it they are not, and with a token that is what was required they are again. -/
structure Mismatch.IsFirstHopeless (mismatch : Mismatch) (tokens : List Token) : Prop where
  within : mismatch.position ≤ tokens.length
  viable : Viable (tokens.take mismatch.position)
  hopeless : ∀ token, tokens[mismatch.position]? = some token →
    mismatch.token = some token ∧ mismatch.found = token.describe ∧
      ¬ Viable (tokens.take (mismatch.position + 1))
  exhausted : mismatch.position = tokens.length →
    mismatch.token = none ∧ mismatch.atEnd = true ∧ ¬ Derives .expression tokens
  finished : mismatch.expected = .endOfInput →
    Derives .expression (tokens.take mismatch.position)
  suggested : mismatch.expected ≠ .endOfInput →
    (∃ token : Token, token.IsWord ∧ mismatch.expected.Admits token) ∧
      ∀ token, mismatch.expected.Admits token →
        Viable (tokens.take mismatch.position ++ [token])

theorem isFirstHopeless_of_refuses {used rest : List Token} {stuck : Outlook}
    (ran : Outlook.start.run used = some stuck) (refuses : stuck.Refuses rest) :
    Mismatch.IsFirstHopeless ⟨stuck.expectation, used.length, rest.head?⟩ (used ++ rest) where
  within := by simp
  viable := by
    simp only [List.take_left]
    exact viable_iff_run.mpr ⟨stuck, ran⟩
  hopeless := by
    intro token found
    cases rest with
    | nil => simp at found
    | cons other more =>
      obtain rfl : other = token := by simpa using found
      refine ⟨rfl, rfl, ?_⟩
      have split : (used ++ other :: more).take (used.length + 1) = used ++ [other] :=
        List.take_length_add_append 1
      have stops : stuck.step other = none := refuses
      rw [split, viable_iff_run, Outlook.run_append_of_run ran]
      rintro ⟨outlook, ran⟩
      simp [Outlook.run, stops] at ran
  exhausted := by
    intro atEnd
    have empty : rest = [] := by simpa using atEnd
    subst empty
    refine ⟨rfl, rfl, ?_⟩
    rw [List.append_nil, derives_iff_accepts, Outlook.Accepts, ran, Option.some.injEq]
    exact refuses
  finished := by
    intro expected
    obtain rfl := Outlook.expectation_eq_endOfInput_iff.mp expected
    simpa using derives_iff_accepts.mpr ran
  suggested := by
    intro expected
    refine ⟨Outlook.exists_admitted fun finish =>
      expected (Outlook.expectation_eq_endOfInput_iff.mpr finish), ?_⟩
    intro token admits
    obtain ⟨next, taken⟩ := Outlook.exists_step_of_admits admits
    simp only [List.take_left]
    exact viable_iff_run.mpr
      ⟨next, (Outlook.run_append_of_run ran [token]).trans (Outlook.run_of_step taken [])⟩

/-- A strict reading that meets no limit fails at the first token that leaves no hope. -/
theorem Program.isFirstHopeless_of_mismatch {tokens : List Token} {mismatch : Mismatch}
    (failed : ofTokens true tokens = .error (.mismatch mismatch))
    (limitless : mismatch.expected.isLimit = false) : mismatch.IsFirstHopeless tokens := by
  rcases ofTokens_cases true tokens with ⟨tree, _, _, outcome⟩ | ⟨fault, rest, read, outcome⟩
  · simp [outcome] at failed
  · have tracks := tracks_program true maxNesting tokens
    rw [read] at tracks
    have located := Except.error.inj (outcome.symm.trans failed)
    cases fault with
    | unreadable text => simp [Fault.locate] at located
    | unexpected expected left =>
      obtain rfl := GrammarError.mismatch.inj located
      rcases tracks with limit | ⟨used, stuck, rfl, ran, rfl, refuses⟩
      · simp [limit] at limitless
      · have hopeless := isFirstHopeless_of_refuses ran refuses
        simpa using hopeless

theorem Program.isFirstHopeless_missing_equals :
    (⟨.text "=", 2, some ⟨.number, "1", ⟨1, 7⟩⟩⟩ : Mismatch).IsFirstHopeless
      [⟨.letWord, "let", ⟨1, 1⟩⟩, ⟨.name, "x", ⟨1, 5⟩⟩, ⟨.number, "1", ⟨1, 7⟩⟩] :=
  isFirstHopeless_of_mismatch rfl rfl

end Funlet
