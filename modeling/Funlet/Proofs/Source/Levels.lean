import Funlet.Grammar.Stepwise
import Funlet.Proofs.Source.RoundTrip

/-!
# Reading back a text of a level

The text of a tree at a place that requires a level is read back by the rule of that level, whatever
tokens come after it, as long as the first of them does not go on with a text of the level.  The
rule reads the tokens of the text and no more, since they are a greedy phrase of the rule; only the
limits on nesting and height can stand in its way.
-/

set_option autoImplicit false

namespace Funlet

open Grammar

/-! ## Where a text of a level ends -/

/-- The first token, if there is one, does not go on with a text of a level: an atom would be an
argument from applications down, an operator of a level would join operands from that level down. -/
structure Level.Stops (level : Nat) (rest : List Token) : Prop where
  atoms : level ≤ Level.application → startsAtom rest = false
  products : level ≤ Level.multiplicative → startsOperator Operator.multiplicative rest = false
  sums : level ≤ Level.additive → startsOperator Operator.additive rest = false
  comparisons : level ≤ Level.comparison → startsOperator Operator.comparison rest = false

theorem Grammar.startsOperator_append (first second : List String) (tokens : List Token) :
    startsOperator (first ++ second) tokens =
      (startsOperator first tokens || startsOperator second tokens) := by
  cases tokens with
  | nil => rfl
  | cons token rest => simp [startsOperator, Bool.and_or_distrib_left]

theorem Grammar.ends_of_not_starts {rule : Rule} {rest : List Token}
    (atoms : startsAtom rest = false) (operators : startsOperator rule.reach rest = false) :
    Ends rule rest := by
  cases rest with
  | nil => exact trivial
  | cons token rest =>
    have here : startsAtom [token] = false := atoms
    have joined : startsOperator rule.reach [token] = false := operators
    show rule.continues token = false
    cases rule <;> first | rfl | simp only [Rule.continues, here, joined, Bool.or_false]

theorem Level.Stops.ends {level : Nat} {rest : List Token} (stops : Level.Stops level rest) :
    Ends (Level.ruleAt level) rest := by
  obtain ⟨atoms, products, sums, comparisons⟩ := stops
  have none : startsOperator [] rest = false := by cases rest <;> simp [startsOperator]
  have sum (low : level ≤ Level.additive) :
      startsOperator (Operator.additive ++ Operator.multiplicative) rest = false := by
    rw [startsOperator_append, sums low, products (Nat.le_succ_of_le low)]
    rfl
  have any (lowest : level ≤ Level.comparison) : startsOperator
      (Operator.comparison ++ (Operator.additive ++ Operator.multiplicative)) rest = false := by
    rw [startsOperator_append, comparisons lowest, sum (Nat.le_succ_of_le lowest)]
    rfl
  rcases level with _ | _ | _ | _ | _ | level
  · exact ends_of_not_starts (atoms (by decide)) (any (by decide))
  · exact ends_of_not_starts (atoms (by decide)) (any (by decide))
  · exact ends_of_not_starts (atoms (by decide)) (sum (by decide))
  · exact ends_of_not_starts (atoms (by decide)) (products (by decide))
  · exact ends_of_not_starts (atoms (by decide)) none
  · cases rest <;> trivial

/-! ## Reading a phrase by its rule -/

namespace Grammar

variable {rule : Rule} {phrase : Phrase rule} {rest : List Token} {levels : Nat}

theorem ends_expression (demand : rule.demand = .expression) (ends : Ends rule rest) :
    Ends .expression rest := by
  cases rule <;> first | exact ends | cases demand

theorem read_of_fits (greedy : phrase.GreedyBefore rest) (ends : Ends rule rest)
    (fits : phrase.Fits levels) :
    rule.read levels (phrase.tokens ++ rest) = .ok phrase.tree rest := by
  have settles := reads_phrase phrase greedy ends levels
  rwa [(phrase.violation_eq_none_iff levels rest).mpr fits] at settles

theorem exists_error_of_not_fits (greedy : phrase.GreedyBefore rest) (ends : Ends rule rest)
    (beyond : ¬ phrase.Fits levels) :
    ∃ fault left, Oversteps phrase.tokens fault ∧
      rule.read levels (phrase.tokens ++ rest) = .error fault left := by
  have settles := reads_phrase phrase greedy ends levels
  cases found : phrase.violation levels rest with
  | none => exact absurd ((phrase.violation_eq_none_iff levels rest).mp found) beyond
  | some fault =>
    rw [found] at settles
    obtain ⟨left, read⟩ := settles
    exact ⟨fault, left, phrase.oversteps_of_violation found, read⟩

end Grammar

namespace Parser

variable {parser : Parser} {rule : Rule} {tokens rest : List Token}

def passing (parser : Parser) (count : Nat) : Parser :=
  { parser with position := parser.position + count }

theorem rest_passing (ahead : parser.rest = tokens ++ rest) :
    (parser.passing tokens.length).rest = rest := by
  have dropped : parser.tokens.drop (parser.position + tokens.length) =
      parser.rest.drop tokens.length := List.drop_drop.symm
  show parser.tokens.drop (parser.position + tokens.length) = rest
  rw [dropped, ahead, List.drop_left]

theorem perform_rule_of_ok {tree : Expr} (ahead : parser.rest = tokens ++ rest)
    (read : rule.read parser.levels (tokens ++ rest) = .ok tree rest) :
    parser.perform (.rule rule) = (.ok (.tree tree), parser.passing tokens.length) := by
  rw [perform, run, ahead, read]
  simp only [leaving, passing, ahead, List.length_append, Nat.add_sub_cancel]

theorem perform_rule_of_error {fault : Fault} {left : List Token}
    (failed : rule.read parser.levels parser.rest = .error fault left) :
    parser.perform (.rule rule) =
      (.error (.grammar (fault.locate parser.tokens.length)), parser.leaving left.length) := by
  rw [perform, run, failed]

end Parser

/-- A tree that has a source has a text for a place of any level.  The rule of the level reads the
text back, standing before its tokens and any others that do not go on with them: it gives an equal
tree, the numbers without their signs, and goes to the first token after the text.  That is unless
more expressions are open at once in the text than may still be opened, or the tree is too tall,
which is then the error. -/
theorem Expr.sourceAt_readsBack {tree : Expr} {whole : String} (accepted : tree.source = .ok whole)
    (required : Nat) :
    ∃ text tokens, tree.sourceAt required = .ok text ∧ tokenize text = .ok tokens ∧
      tree.same tree.unsigned = true ∧
      ∀ (parser : Parser) (rest : List Token), parser.rest = tokens ++ rest →
        Level.Stops required rest →
        (tree.nestingAt required ≤ parser.levels ∧ tree.height ≤ Expr.maxHeight →
          parser.perform (.rule (Level.ruleAt required)) =
            (.ok (.tree tree.unsigned), parser.passing tokens.length) ∧
          (parser.passing tokens.length).rest = rest) ∧
        (parser.levels < tree.nestingAt required ∨ Expr.maxHeight < tree.height →
          ∃ mismatch after, parser.perform (.rule (Level.ruleAt required)) =
              (.error (.grammar (.mismatch mismatch)), after) ∧
            mismatch.expected = .shallowerNesting) := by
  have writable : tree.Writable := (tree.exists_sourceAt_iff _).mp ⟨whole, accepted⟩
  obtain ⟨text, written⟩ := (tree.exists_sourceAt_iff required).mpr writable
  obtain ⟨phrase, reads, sameTree, sameLevels, finite, greedy⟩ := spells_sourceAt written .start
  refine ⟨text, phrase.tokens, written, reads.tokenize_eq, same_unsigned writable, ?_⟩
  intro parser rest ahead stops
  have ends := stops.ends
  have greedy := greedy rest fun demand => ends_expression demand ends
  have height : phrase.tree.height = tree.height := by rw [sameTree, height_unsigned]
  constructor
  · rintro ⟨nested, short⟩
    have fits : phrase.Fits parser.levels := ⟨sameLevels ▸ nested, height ▸ short, finite⟩
    have read := read_of_fits greedy ends fits
    rw [sameTree] at read
    exact ⟨Parser.perform_rule_of_ok ahead read, Parser.rest_passing ahead⟩
  · intro beyond
    have misfit : ¬ phrase.Fits parser.levels := by
      rintro ⟨nested, short, _⟩
      rw [sameLevels] at nested
      rw [height] at short
      omega
    obtain ⟨fault, left, oversteps, failed⟩ := exists_error_of_not_fits greedy ends misfit
    obtain ⟨_, rfl⟩ := oversteps.exists_shallowerNesting finite
    rw [← ahead] at failed
    exact ⟨_, _, Parser.perform_rule_of_error failed, rfl⟩

def Expr.difference : Expr := .binary "-" (.binary "-" (.name "a") (.name "b")) (.name "c")

theorem Expr.sourceAt_readsBack_difference :
    difference.source = .ok "a - b - c" ∧
    ∃ tokens, tokenize "a - b - c" = .ok tokens ∧
      Level.Stops Level.additive [⟨.operator, "<", ⟨1, 11⟩⟩] ∧
      Parser.perform ⟨tokens ++ [⟨.operator, "<", ⟨1, 11⟩⟩], true, 0, 0⟩ (.rule .additive) =
        (.ok (.tree difference),
          ⟨tokens ++ [⟨.operator, "<", ⟨1, 11⟩⟩], true, 0 + tokens.length, 0⟩) := by
  have accepted : difference.source = .ok "a - b - c" := rfl
  have written : difference.sourceAt Level.additive = .ok "a - b - c" := rfl
  have stops : Level.Stops Level.additive [⟨.operator, "<", ⟨1, 11⟩⟩] := by
    constructor <;> decide
  have within : difference.nestingAt Level.additive ≤ maxNesting ∧
      difference.height ≤ Expr.maxHeight := by decide
  obtain ⟨text, tokens, written', lexed, _, reads⟩ := sourceAt_readsBack accepted Level.additive
  obtain rfl := Except.ok.inj (written'.symm.trans written)
  let parser : Parser := ⟨tokens ++ [⟨.operator, "<", ⟨1, 11⟩⟩], true, 0, 0⟩
  obtain ⟨fits, _⟩ := reads parser [⟨.operator, "<", ⟨1, 11⟩⟩] rfl stops
  exact ⟨accepted, tokens, lexed, stops, (fits within).1⟩

end Funlet
