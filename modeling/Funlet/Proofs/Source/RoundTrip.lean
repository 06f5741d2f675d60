import Funlet.Proofs.Grammar.Acceptance
import Funlet.Proofs.Source.Spelling

/-!
# Writing and reading back

The source of a tree is read back as the tree, numbers without their signs, unless it is nested too
deeply or the tree is too tall.  A tree that was read is never too tall and always has a source; but
that source may be nested more deeply than the text it was read from, because a function that is an
operand is put between parentheses.
-/

set_option autoImplicit false

namespace Funlet

open Grammar

namespace Program

variable {strict : Bool} {text : String} {tokens : List Token}

theorem ofText_of_ok (lexed : tokenize text = .ok tokens) {tree : Expr}
    (read : ofTokens strict tokens = .ok tree) : ofText strict text = .ok tree := by
  unfold ofTokens at read
  unfold ofText ofTextNoted
  simp only [lexed, read]

theorem ofText_of_error (lexed : tokenize text = .ok tokens) {error : GrammarError}
    (failed : ofTokens strict tokens = .error error) :
    ofText strict text = .error (.grammar error) := by
  unfold ofTokens at failed
  unfold ofText ofTextNoted
  simp only [lexed, failed]

theorem exists_tokens_of_ofText {tree : Expr} (read : ofText strict text = .ok tree) :
    ∃ tokens, tokenize text = .ok tokens ∧ ofTokens strict tokens = .ok tree := by
  cases lexed : tokenize text with
  | error stray => simp [ofText, ofTextNoted, lexed] at read
  | ok tokens =>
    refine ⟨tokens, rfl, ?_⟩
    cases outcome : ofTokens strict tokens with
    | ok other =>
      obtain rfl := Except.ok.inj ((ofText_of_ok lexed outcome).symm.trans read)
      rfl
    | error error => simp [ofText_of_error lexed outcome] at read

theorem ofTokens_of_greedy {phrase : Phrase .expression} (greedy : phrase.GreedyBefore [])
    (finite : ∀ token ∈ phrase.tokens, token.HasFiniteValue) :
    (phrase.levels ≤ maxNesting ∧ phrase.tree.height ≤ Expr.maxHeight →
      ofTokens true phrase.tokens = .ok phrase.tree) ∧
    (maxNesting < phrase.levels ∨ Expr.maxHeight < phrase.tree.height →
      ∃ mismatch, ofTokens true phrase.tokens = .error (.mismatch mismatch) ∧
        mismatch.expected = .shallowerNesting) := by
  refine ⟨fun ⟨nested, short⟩ => ofTokens_of_fits greedy ⟨nested, short, finite⟩,
    fun beyond => ?_⟩
  have misfit : ¬ phrase.Fits maxNesting := by
    rintro ⟨nested, short, _⟩
    rcases beyond with deep | tall <;> omega
  obtain ⟨fault, oversteps, failed⟩ := exists_oversteps_of_not_fits greedy misfit
  obtain ⟨rest, rfl⟩ := oversteps.exists_shallowerNesting finite
  exact ⟨_, failed, rfl⟩

end Program

/-! ## Trees -/

theorem Expr.exists_phrase_of_source {tree : Expr} {text : String}
    (written : tree.source = .ok text) :
    ∃ phrase : Phrase .expression, tokenize text = .ok phrase.tokens ∧ phrase.GreedyBefore [] ∧
      phrase.tree = tree.unsigned ∧ phrase.levels = tree.nesting ∧
      ∀ token ∈ phrase.tokens, token.HasFiniteValue := by
  obtain ⟨phrase, reads, sameTree, sameLevels, finite, greedy⟩ := spells_sourceAt written .start
  exact ⟨phrase, reads.tokenize_eq, greedy [] fun _ => trivial, sameTree, sameLevels, finite⟩

/-- The source of a tree is read back unless a limit is overstepped. -/
theorem Expr.ofText_source {tree : Expr} {text : String} (written : tree.source = .ok text) :
    (tree.nesting ≤ maxNesting ∧ tree.height ≤ Expr.maxHeight →
      Program.ofText true text = .ok tree.unsigned) ∧
    (maxNesting < tree.nesting ∨ Expr.maxHeight < tree.height →
      ∃ mismatch, Program.ofText true text = .error (.grammar (.mismatch mismatch)) ∧
        mismatch.expected = .shallowerNesting) := by
  obtain ⟨phrase, lexed, greedy, sameTree, sameLevels, finite⟩ :=
    Expr.exists_phrase_of_source written
  obtain ⟨fits, oversteps⟩ := Program.ofTokens_of_greedy greedy finite
  rw [sameTree, sameLevels, Expr.height_unsigned] at fits oversteps
  refine ⟨fun within => Program.ofText_of_ok lexed (fits within), fun beyond => ?_⟩
  obtain ⟨mismatch, failed, expected⟩ := oversteps beyond
  exact ⟨mismatch, Program.ofText_of_error lexed failed, expected⟩

/-- A tree has a source if and only if it can be written.  Its source is read back as an equal tree
unless more expressions are open in it than levels are allowed, or the tree is too tall. -/
theorem Expr.source_readsBack {tree : Expr} (complete : tree.Complete) :
    ((∃ text, tree.source = .ok text) ↔ tree.Writable) ∧
    (∀ cause, tree.source = .error cause → (ReportError.source cause).kind = "ValueError") ∧
    ∀ text, tree.source = .ok text → ∃ phrase : Phrase .expression,
      tokenize text = .ok phrase.tokens ∧ phrase.Widest ∧ phrase.levels = tree.nesting ∧
      (phrase.levels ≤ maxNesting ∧ tree.height ≤ Expr.maxHeight →
        Program.ofText true text = .ok tree.unsigned ∧ tree.same tree.unsigned = true) ∧
      (maxNesting < phrase.levels ∨ Expr.maxHeight < tree.height →
        ∃ mismatch, Program.ofText true text = .error (.grammar (.mismatch mismatch)) ∧
          mismatch.expected = .shallowerNesting) := by
  refine ⟨tree.exists_sourceAt_iff Level.expression,
    fun cause failed => Expr.kind_of_sourceAt_error complete failed, fun text written => ?_⟩
  have writable : tree.Writable := (tree.exists_sourceAt_iff _).mp ⟨text, written⟩
  obtain ⟨phrase, lexed, greedy, _, sameLevels, _⟩ := Expr.exists_phrase_of_source written
  obtain ⟨fits, oversteps⟩ := Expr.ofText_source written
  refine ⟨phrase, lexed, widest_of_greedy greedy, sameLevels, ?_, ?_⟩
  · rw [sameLevels]
    exact fun within => ⟨fits within, Expr.same_unsigned writable⟩
  · rw [sameLevels]
    exact oversteps

theorem Expr.source_readsBack_apply :
    ∃ text, (Expr.apply (.name "f") (.lambda "x" (.name "x"))).source = .ok text ∧
      Program.ofText true text = .ok (.apply (.name "f") (.lambda "x" (.name "x"))) := by
  have complete : (Expr.apply (.name "f") (.lambda "x" (.name "x"))).Complete := ⟨trivial, trivial⟩
  obtain ⟨written, _, readsBack⟩ := Expr.source_readsBack complete
  obtain ⟨text, written⟩ := written.mpr ⟨rfl, rfl, rfl⟩
  obtain ⟨phrase, _, _, levels, fits, _⟩ := readsBack text written
  exact ⟨text, written, (fits ⟨levels ▸ by decide, by decide⟩).1⟩

/-! ## Programs -/

/-- The tree of a phrase of words with finite numbers can be written, and its numbers have no
sign. -/
theorem Phrase.writable_tree {rule : Rule} {phrase : Phrase rule}
    (words : ∀ token ∈ phrase.tokens, token.IsWord)
    (finite : ∀ token ∈ phrase.tokens, token.HasFiniteValue) :
    phrase.tree.Writable ∧ phrase.tree.unsigned = phrase.tree := by
  induction phrase with
  | inner passes phrase ih => exact ih words finite
  | letIn keyword bound equals value inWord body valueIh bodyIh =>
    simp only [Phrase.tokens, List.forall_mem_cons, List.forall_mem_append] at words finite
    obtain ⟨valueWritable, valueSame⟩ := valueIh words.2.2.2.1 finite.2.2.2.1
    obtain ⟨bodyWritable, bodySame⟩ := bodyIh words.2.2.2.2.2 finite.2.2.2.2.2
    refine ⟨⟨words.2.1.isName bound.2, valueWritable, bodyWritable⟩, ?_⟩
    simp [Expr.unsigned, valueSame, bodySame]
  | ifThen keyword condition thenWord thenBranch elseWord elseBranch conditionIh thenIh elseIh =>
    simp only [Phrase.tokens, List.forall_mem_cons, List.forall_mem_append] at words finite
    obtain ⟨conditionWritable, conditionSame⟩ := conditionIh words.2.1 finite.2.1
    obtain ⟨thenWritable, thenSame⟩ := thenIh words.2.2.2.1 finite.2.2.2.1
    obtain ⟨elseWritable, elseSame⟩ := elseIh words.2.2.2.2.2 finite.2.2.2.2.2
    refine ⟨⟨conditionWritable, thenWritable, elseWritable⟩, ?_⟩
    simp [Expr.unsigned, conditionSame, thenSame, elseSame]
  | @join rule below passes left operator right leftIh rightIh =>
    simp only [Phrase.tokens, List.forall_mem_cons, List.forall_mem_append] at words finite
    obtain ⟨leftWritable, leftSame⟩ := leftIh words.1 finite.1
    obtain ⟨rightWritable, rightSame⟩ := rightIh words.2.2 finite.2.2
    have known : operator.1.text ∈ Operator.known :=
      Outlook.operators_subset_reach rule _ operator.2.2
    refine ⟨⟨known, leftWritable, rightWritable⟩, ?_⟩
    simp [Expr.unsigned, leftSame, rightSame]
  | apply function argument functionIh argumentIh =>
    simp only [Phrase.tokens, List.forall_mem_append] at words finite
    obtain ⟨functionWritable, functionSame⟩ := functionIh words.1 finite.1
    obtain ⟨argumentWritable, argumentSame⟩ := argumentIh words.2 finite.2
    refine ⟨⟨functionWritable, argumentWritable⟩, ?_⟩
    simp [Expr.unsigned, functionSame, argumentSame]
  | number token =>
    obtain ⟨size, read⟩ := (words token.1 (by simp)).exists_readReal? token.2
    obtain ⟨value, read', notInfinite⟩ := finite token.1 (by simp) token.2
    obtain rfl := Option.some.inj (read'.symm.trans read)
    cases size with
    | none => simp [Binary64.ofSize, Binary64.isInfinite] at notInfinite
    | some size =>
      have value : token.1.value = .finite false size := by
        simp [Token.value, read, Binary64.ofSize]
      simp [Expr.Writable, Expr.unsigned, value, Binary64.Writable, Binary64.unsigned]
  | name token => exact ⟨(words token.1 (by simp)).isName token.2, rfl⟩
  | paren opening inside closing insideIh =>
    simp only [Phrase.tokens, List.forall_mem_cons, List.forall_mem_append] at words finite
    exact insideIh words.2.1 finite.2.1
  | lambda keyword parameter arrow body bodyIh =>
    simp only [Phrase.tokens, List.forall_mem_cons] at words finite
    obtain ⟨bodyWritable, bodySame⟩ := bodyIh words.2.2.2 finite.2.2.2
    refine ⟨⟨words.2.1.isName parameter.2, bodyWritable⟩, ?_⟩
    simp [Expr.unsigned, bodySame]

/-- A tree that was read can be written, its numbers have no sign, and it is not too tall. -/
theorem Program.writable_of_ofText {strict : Bool} {text : String} {tree : Expr}
    (read : ofText strict text = .ok tree) :
    tree.Writable ∧ tree.unsigned = tree ∧ tree.height ≤ Expr.maxHeight := by
  obtain ⟨tokens, lexed, outcome⟩ := exists_tokens_of_ofText read
  rcases ofTokens_cases strict tokens with ⟨other, rest, parsed, same⟩ | ⟨fault, _, _, failed⟩
  · obtain rfl := Except.ok.inj (same.symm.trans outcome)
    obtain ⟨phrase, rfl, _, _, _, ⟨_, tall, finite⟩, rfl⟩ := exists_fits_of_program parsed
    have words := isWord_of_tokenize lexed
    obtain ⟨writable, unsigned⟩ :=
      Phrase.writable_tree (fun token member => words token (by simp [member])) finite
    exact ⟨writable, unsigned, tall⟩
  · simp [failed] at outcome

/-- A tree that was read has a source, which is read back as the tree itself if and only if no more
expressions are open at once in the source than levels are allowed. -/
theorem Program.source_of_ofText {strict : Bool} {text : String} {tree : Expr}
    (read : ofText strict text = .ok tree) :
    ∃ source, tree.source = .ok source ∧ ∃ phrase : Phrase .expression,
      tokenize source = .ok phrase.tokens ∧ phrase.Widest ∧ phrase.levels = tree.nesting ∧
      (phrase.levels ≤ maxNesting → ofText true source = .ok tree ∧ tree.same tree = true) ∧
      (maxNesting < phrase.levels →
        ∃ mismatch, ofText true source = .error (.grammar (.mismatch mismatch)) ∧
          mismatch.expected = .shallowerNesting) := by
  obtain ⟨writable, unsigned, short⟩ := writable_of_ofText read
  obtain ⟨source, written⟩ := (tree.exists_sourceAt_iff Level.expression).mpr writable
  obtain ⟨phrase, lexed, greedy, _, sameLevels, _⟩ := Expr.exists_phrase_of_source written
  obtain ⟨fits, oversteps⟩ := Expr.ofText_source written
  have same := Expr.same_unsigned writable
  rw [unsigned] at fits same
  refine ⟨source, written, phrase, lexed, widest_of_greedy greedy, sameLevels, ?_, ?_⟩
  · rw [sameLevels]
    exact fun nested => ⟨fits ⟨nested, short⟩, same⟩
  · rw [sameLevels]
    exact fun deep => oversteps (.inl deep)

theorem Program.source_of_ofText_operand :
    ∃ source, (Expr.apply (.name "f") (.lambda "x" (.name "x"))).source = .ok source ∧
      ofText true source = .ok (.apply (.name "f") (.lambda "x" (.name "x"))) := by
  have read : ofText false "f fun x -> x" = .ok (.apply (.name "f") (.lambda "x" (.name "x"))) := by
    decide +kernel
  obtain ⟨source, written, phrase, _, _, levels, fits, _⟩ := source_of_ofText read
  exact ⟨source, written, (fits (levels ▸ by decide)).1⟩

/-! ## A source that is nested too deeply -/

def nestedArguments : Nat → String
  | 0 => "x"
  | count + 1 => "f fun x -> " ++ nestedArguments count

namespace Expr

def nestedArguments : Nat → Expr
  | 0 => .name "x"
  | count + 1 => .apply (.name "f") (.lambda "x" (nestedArguments count))

theorem height_nestedArguments (count : Nat) : (nestedArguments count).height = 2 * count + 1 := by
  induction count with
  | zero => rfl
  | succ count ih =>
    simp only [nestedArguments, height, ih]
    omega

theorem writable_nestedArguments (count : Nat) : (nestedArguments count).Writable := by
  induction count with
  | zero => exact rfl
  | succ count ih => exact ⟨rfl, rfl, ih⟩

/-- A function opens two expressions where it is written as an argument. -/
theorem nesting_nestedArguments (count : Nat) :
    (nestedArguments count).nesting = 2 * count + 1 := by
  induction count with
  | zero => rfl
  | succ count ih =>
    simp only [nesting, Level.expression] at ih
    simp only [nestedArguments, nesting, nestingAt, placedNesting, Level.expression,
      Level.application, Level.atom, ih]
    simp
    omega

end Expr

/-- A function opens one expression where it is read as an argument. -/
theorem spells_nestedArguments (count : Nat) :
    Spells .expression (nestedArguments count).toList (.nestedArguments count) (count + 1) := by
  induction count with
  | zero =>
    have name : Spells (Level.rule Level.atom) "x".toList (.name "x") 0 := spells_name rfl
    exact (name.lower Level.atom (Nat.zero_le _)).expression
  | succ count ih =>
    have function : Spells .application "f".toList (.name "f") 0 :=
      (spells_name rfl).inner rfl (by decide)
    have isName : Word.isName "x".toList = true := rfl
    have whole := (spells_lambda_argument isName function ih).expression
    have shape : (nestedArguments (count + 1)).toList =
        "f".toList ++ ' ' :: lambdaText "x" (nestedArguments count).toList := by
      simp [nestedArguments, lambdaText]
    rw [Nat.zero_max] at whole
    rw [shape]
    exact whole

theorem Program.ofText_nestedArguments {count : Nat} (many : 32 ≤ count) (few : count < 64) :
    ofText true (nestedArguments count) = .ok (.nestedArguments count) ∧
      ∃ source, (Expr.nestedArguments count).source = .ok source ∧
        ∃ mismatch, ofText true source = .error (.grammar (.mismatch mismatch)) ∧
          mismatch.expected = .shallowerNesting := by
  obtain ⟨phrase, reads, sameTree, sameLevels, finite, greedy⟩ :=
    spells_nestedArguments count .start
  have fits := (ofTokens_of_greedy (greedy [] fun _ => trivial) finite).1
  have nested : phrase.levels ≤ maxNesting := by
    rw [sameLevels]
    exact few
  have tall : phrase.tree.height ≤ Expr.maxHeight := by
    rw [sameTree, Expr.height_nestedArguments, Expr.maxHeight]
    omega
  have deep : maxNesting < (Expr.nestedArguments count).nesting := by
    rw [Expr.nesting_nestedArguments, maxNesting]
    omega
  obtain ⟨source, written⟩ :=
    ((Expr.nestedArguments count).exists_sourceAt_iff Level.expression).mpr
      (Expr.writable_nestedArguments count)
  refine ⟨?_, source, written, (Expr.ofText_source written).2 (.inl deep)⟩
  rw [← sameTree]
  exact ofText_of_ok reads.tokenize_eq (fits ⟨nested, tall⟩)

/-- Thirty-two nested arguments are a program that is not read back from its source. -/
theorem Program.ofText_thirtyTwo_nestedArguments :
    ofText true (nestedArguments 32) = .ok (.nestedArguments 32) ∧
      ∃ source, (Expr.nestedArguments 32).source = .ok source ∧
        ∃ mismatch, ofText true source = .error (.grammar (.mismatch mismatch)) ∧
          mismatch.expected = .shallowerNesting :=
  ofText_nestedArguments (by decide) (by decide)

end Funlet
