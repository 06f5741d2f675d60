import Funlet.Proofs.Source.RoundTrip
import Funlet.Proofs.Stepwise.Agreement

/-!
# Reading by requests agrees with the rules

Each rule that works by requests agrees with the rule of the grammar, given that the expressions
inside do; the rule for expressions follows by induction on the levels that may still be opened.  So
a text that is read by requests gives what the program reader gives, and none of the hazards that
single requests run into occurs.
-/

set_option autoImplicit false

namespace Funlet

open Grammar (Reader maxNesting)

namespace Stepwise

/-! ## Rules -/

/-- The heights of leaves are known, and so many more expressions may be opened. -/
structure Desk.Ready (levels : Nat) (desk : Desk) : Prop where
  leaves : ∀ leaf : Expr, leaf.isLeaf = true → desk.Knows leaf
  depth : maxNesting - desk.parser.depth = levels

theorem Desk.Ready.after {levels : Nat} {desk last : Desk} (ready : desk.Ready levels)
    (follows : last.Follows desk) : last.Ready levels where
  leaves leaf isLeaf := follows.knows leaf (ready.leaves leaf isLeaf)
  depth := follows.depth ▸ ready.depth

def Simulates (levels : Nat) (builder : Builder Expr) (reader : Reader Expr) : Prop :=
  ∀ desk : Desk, desk.Ready levels →
    Agrees (Built desk) desk (reader desk.parser.rest) (builder desk)

theorem position_bind {α : Type} (next : Nat → Builder α) (desk : Desk) :
    (position >>= next) desk = next desk.parser.position desk := rfl

theorem current_bind {α : Type} (next : Token → Builder α) (desk : Desk) :
    (current >>= next) desk = next desk.parser.current desk := rfl

theorem check_bind {α : Type} {kind : Kind} {texts : List String} (next : Bool → Builder α)
    (desk : Desk) :
    (check kind texts >>= next) desk = next (desk.parser.check kind texts) desk := rfl

section Rules

variable {levels : Nat} {builder : Builder Expr} {reader : Reader Expr} {desk : Desk}

theorem agrees_closed {α β : Type} {related : α → β → Desk → Prop} {kind : Kind}
    {next : Expr → Reader α} {next' : Expr → Builder β} (inside : Simulates levels builder reader)
    (ready : desk.Ready levels) (word : kind ≠ .endOfInput)
    (goesOn : ∀ (tree : Expr) (last : Desk), last.Follows desk → last.Knows tree →
      last.parser.rest.length < desk.parser.rest.length →
      Agrees related last (next tree last.parser.rest) (next' tree last)) :
    Agrees related desk
      ((do
        let tree ← reader
        let _ ← Grammar.expect kind
        next tree : Reader α) desk.parser.rest)
      ((do
        let tree ← builder
        let _ ← expect kind none
        next' tree : Builder β) desk) := by
  refine (inside desk ready).bind ?_
  rintro _ tree atClosing follows ⟨rfl, known, left⟩
  refine (agrees_expect word atClosing).bind ?_
  intro closing _ last later taken
  have fewer := Nat.lt_trans taken.left left
  exact goesOn tree last (later.trans follows) (later.knows tree known) fewer

theorem simulates_lambdaForm (inside : Simulates levels builder reader) :
    Simulates levels (lambdaForm builder) (Grammar.lambdaForm reader) := by
  intro desk ready
  rw [lambdaForm, Grammar.lambdaForm, get_bind, position_bind]
  refine (agrees_expect (by decide) desk).bind ?_
  intro keyword _ atParameter first taken
  have underway := underway_of_taken first taken
  refine (agrees_expect (by decide) atParameter).bind ?_
  rintro _ parameter atArrow later ⟨rfl, _⟩
  have underway := underway.after later
  refine (agrees_expect (by decide) atArrow).bind ?_
  intro arrow _ atBody later _
  have underway := underway.after later
  refine (inside atBody (ready.after underway.follows)).bind ?_
  rintro _ body last later ⟨rfl, known, _⟩
  exact agrees_nest (underway.read later known) rfl

/-! ## Atoms -/

theorem agrees_leaf {leaf : Expr} {token : Token} {rest : List Token} (ready : desk.Ready levels)
    (ahead : desk.parser.rest = token :: rest) (isLeaf : leaf.isLeaf = true) :
    Agrees (Built desk) desk (.ok leaf rest) (.ok leaf desk.advanced) := by
  have left := Desk.rest_advanced_of_cons ahead
  have follows := Desk.advanced_follows ahead
  have known := (ready.after follows).leaves leaf isLeaf
  refine .ok follows left ⟨rfl, known, ?_⟩
  rw [left, ahead]
  exact Nat.lt_succ_self _

theorem agrees_numberAtom {token : Token} {rest : List Token} (ready : desk.Ready levels)
    (ahead : desk.parser.rest = token :: rest) :
    Agrees (Built desk) desk (Grammar.numberAtom token rest desk.parser.rest)
      (numberAtom token desk) := by
  rw [Grammar.numberAtom_eq, numberAtom]
  cases Numeral.readReal? token.text with
  | none => exact .error (Desk.Follows.refl desk) rfl trivial rfl
  | some value =>
    simp only
    by_cases infinite : value.isInfinite = true
    · rw [if_pos infinite, if_pos infinite]
      exact agrees_fail rfl
    · rw [if_neg infinite, if_neg infinite]
      exact agrees_leaf ready ahead rfl

theorem agrees_parenAtom (inside : Simulates levels builder reader) {opening : Token}
    {rest : List Token} (ready : desk.Ready levels) (ahead : desk.parser.rest = opening :: rest) :
    Agrees (Built desk) desk
      ((do
        let inner ← reader
        let _ ← Grammar.expect .rightParen
        return inner : Reader Expr) rest)
      (parenAtom builder desk) := by
  have advanced : advance desk = .ok desk.parser.current desk.advanced := rfl
  have first := Desk.advanced_follows ahead
  rw [parenAtom, bind_ok advanced, ← Desk.rest_advanced_of_cons ahead]
  refine Agrees.after (agrees_closed inside (ready.after first) (by decide) ?_) first
  intro inner last onward known fewer
  exact .ok (Desk.Follows.refl last) rfl ⟨rfl, known, Nat.lt_of_lt_of_le fewer first.left⟩

theorem simulates_atom (inside : Simulates levels builder reader) :
    Simulates levels (atom builder) (Grammar.atom reader) := by
  intro desk ready
  rw [atom, current_bind]
  cases ahead : desk.parser.rest with
  | nil =>
    have current : desk.parser.current = .finish ⟨0, 0⟩ := by simp [Parser.current, ahead]
    rw [Grammar.atom_fails rfl, current]
    exact agrees_fail ahead
  | cons token rest =>
    rw [Desk.current_eq ahead]
    cases kind : token.kind with
    | number =>
      rw [Grammar.atom_number ⟨token, kind⟩ rest, ← ahead]
      exact agrees_numberAtom ready ahead
    | name =>
      rw [Grammar.atom_name ⟨token, kind⟩ rest]
      have text : token.text = desk.parser.current.text := by rw [Desk.current_eq ahead]
      simp only
      rw [text]
      exact agrees_leaf ready ahead rfl
    | leftParen =>
      rw [Grammar.atom_paren ⟨token, kind⟩ rest]
      exact agrees_parenAtom inside ready ahead
    | lambda =>
      rw [Grammar.atom_lambda ⟨token, kind⟩ rest, ← ahead]
      exact simulates_lambdaForm inside desk ready
    | _ =>
      rw [Grammar.atom_fails (by simp [Grammar.startsAtom, kind])]
      exact agrees_fail ahead

/-! ## Loops -/

theorem startsAtom_eq (desk : Desk) :
    atomKinds.contains desk.parser.current.kind = Grammar.startsAtom desk.parser.rest := by
  unfold Parser.current
  cases desk.parser.rest with
  | nil => rfl
  | cons token rest => cases kind : token.kind <;> simp [Grammar.startsAtom, atomKinds, kind]

/-- Arguments are read as long as there are any; the bound is not used up because each takes a
token. -/
theorem agrees_arguments (inside : Simulates levels builder reader) {before : Desk} {bound : Nat}
    {desk : Desk} {limit : Nat} {function : Expr} (ready : desk.Ready levels)
    (known : desk.Knows function) (enough : desk.parser.rest.length < bound)
    (fits : desk.parser.rest.length ≤ limit)
    (left : desk.parser.rest.length < before.parser.rest.length) :
    Agrees (Built before) desk (Grammar.arguments reader limit function desk.parser.rest)
      (arguments builder bound function desk) := by
  induction bound generalizing desk limit function with
  | zero => omega
  | succ bound ih =>
    rw [arguments, current_bind, startsAtom_eq]
    by_cases starts : Grammar.startsAtom desk.parser.rest = true
    · rw [if_pos starts, position_bind]
      -- The rule of the grammar has a limit too, which is reached only where no token is left.
      cases limit with
      | zero =>
        have none : desk.parser.rest = [] := List.length_eq_zero_iff.mp (Nat.le_zero.mp fits)
        simp [none, Grammar.startsAtom] at starts
      | succ limit =>
        rw [Grammar.arguments_cons starts]
        refine (simulates_atom inside desk ready).bind ?_
        rintro _ argument atNode follows ⟨rfl, argumentKnown, fewer⟩
        have children : ∀ child ∈ [function, argument], atNode.Knows child := by
          simpa using ⟨follows.knows _ known, argumentKnown⟩
        have underway : Underway desk (Expr.apply function argument).children atNode :=
          ⟨follows, fewer, children⟩
        refine (agrees_nest underway rfl).bind ?_
        rintro _ node last later ⟨rfl, nodeKnown, fewer⟩
        exact ih (ready.after (later.trans follows)) nodeKnown (by omega) (by omega) (by omega)
    · rw [if_neg starts, Grammar.arguments_stop limit function (by simpa using starts)]
      exact .ok (Desk.Follows.refl desk) rfl ⟨rfl, known, left⟩

theorem simulates_application (inside : Simulates levels builder reader) :
    Simulates levels (application builder) (Grammar.application reader) := by
  intro desk ready
  refine (simulates_atom inside desk ready).bind ?_
  rintro _ function last follows ⟨rfl, known, left⟩
  rw [get_bind, get_bind]
  exact agrees_arguments inside (ready.after follows) known (Nat.lt_succ_self _) (Nat.le_refl _)
    left

theorem startsOperator_eq {operators : List String} (filled : operators.isEmpty = false)
    (desk : Desk) :
    desk.parser.check .operator operators = Grammar.startsOperator operators desk.parser.rest := by
  rw [check_eq operators (by decide) desk, filled]
  cases desk.parser.rest with
  | nil => rfl
  | cons token rest => simp [Grammar.startsOperator]

theorem agrees_operations {operators : List String} (filled : operators.isEmpty = false)
    (operand : Simulates levels builder reader) {before : Desk} {bound : Nat} {desk : Desk}
    {limit : Nat} {first : Expr} (ready : desk.Ready levels) (known : desk.Knows first)
    (enough : desk.parser.rest.length < bound) (fits : desk.parser.rest.length ≤ limit)
    (left : desk.parser.rest.length < before.parser.rest.length) :
    Agrees (Built before) desk (Grammar.operations operators reader limit first desk.parser.rest)
      (operations operators builder bound first desk) := by
  induction bound generalizing desk limit first with
  | zero => omega
  | succ bound ih =>
    rw [operations, check_bind, startsOperator_eq filled]
    by_cases starts : Grammar.startsOperator operators desk.parser.rest = true
    · rw [if_pos starts]
      cases ahead : desk.parser.rest with
      | nil => simp [ahead, Grammar.startsOperator] at starts
      | cons token rest =>
        cases limit with
        | zero => simp [ahead] at fits
        | succ limit =>
          have advanced : advance desk = .ok desk.parser.current desk.advanced := rfl
          have passed := Desk.advanced_follows ahead
          rw [ahead] at starts
          rw [Grammar.operations_cons starts, position_bind, bind_ok advanced, ← ahead,
            ← Desk.rest_advanced_of_cons ahead, Desk.current_eq ahead]
          -- The operand is read from behind the sign, the node is completed from before it.
          refine Agrees.after ((operand desk.advanced (ready.after passed)).bind ?_) passed
          rintro _ right atNode later ⟨rfl, rightKnown, fewer⟩
          have follows := later.trans passed
          have fewer := Nat.lt_of_lt_of_le fewer passed.left
          have children : ∀ child ∈ [first, right], atNode.Knows child := by
            simpa using ⟨follows.knows _ known, rightKnown⟩
          have underway : Underway desk (Expr.binary token.text first right).children atNode :=
            ⟨follows, fewer, children⟩
          refine (agrees_nest underway rfl).bind ?_
          rintro _ node last later ⟨rfl, nodeKnown, fewer⟩
          exact ih (ready.after (later.trans follows)) nodeKnown (by omega) (by omega) (by omega)
    · rw [if_neg starts, Grammar.operations_stop limit first (by simpa using starts)]
      exact .ok (Desk.Follows.refl desk) rfl ⟨rfl, known, left⟩

theorem simulates_chain {operators : List String} (filled : operators.isEmpty = false)
    (operand : Simulates levels builder reader) :
    Simulates levels (chain operators builder) (Grammar.chain operators reader) := by
  intro desk ready
  refine (operand desk ready).bind ?_
  rintro _ first last follows ⟨rfl, known, left⟩
  rw [get_bind, get_bind]
  exact agrees_operations filled operand (ready.after follows) known (Nat.lt_succ_self _)
    (Nat.le_refl _) left

theorem simulates_comparison (inside : Simulates levels builder reader) :
    Simulates levels (comparison builder) (Grammar.comparison reader) :=
  simulates_chain rfl (simulates_chain rfl (simulates_chain rfl (simulates_application inside)))

/-! ## Expressions -/

theorem startsWith_eq {kind : Kind} (word : kind ≠ .endOfInput) (desk : Desk) :
    desk.parser.check kind [] = Grammar.startsWith kind desk.parser.rest := by
  rw [check_eq [] word]
  cases desk.parser.rest with
  | nil => rfl
  | cons token rest => simp [Grammar.startsWith]

theorem agrees_keyword {kind : Kind} (starts : Grammar.startsWith kind desk.parser.rest = true) :
    Agrees (Taken desk) desk (Grammar.expect kind desk.parser.rest) (advance desk) := by
  cases ahead : desk.parser.rest with
  | nil => simp [ahead, Grammar.startsWith] at starts
  | cons token rest =>
    have fits : token.kind = kind := by simpa [ahead, Grammar.startsWith] using starts
    rw [Grammar.expect, if_pos fits]
    exact agrees_advance ahead

theorem simulates_ifForm (inside : Simulates levels builder reader) :
    Simulates levels (ifForm builder) (Grammar.ifForm reader) := by
  intro desk ready
  rw [ifForm, Grammar.ifForm, get_bind, check_bind, startsWith_eq (by decide)]
  by_cases starts : Grammar.startsWith .ifWord desk.parser.rest = true
  · rw [if_pos starts, if_pos starts, position_bind]
    refine (agrees_keyword starts).bind ?_
    intro keyword _ atCondition first taken
    have underway := underway_of_taken first taken
    refine agrees_closed inside (ready.after underway.follows) (by decide) ?_
    intro condition atThen later known _
    have underway := underway.read later known
    refine agrees_closed inside (ready.after underway.follows) (by decide) ?_
    intro thenBranch atElse later known _
    have underway := underway.read later known
    refine (inside atElse (ready.after underway.follows)).bind ?_
    rintro _ elseBranch last later ⟨rfl, known, _⟩
    exact agrees_nest (underway.read later known) rfl
  · rw [if_neg starts, if_neg starts]
    exact simulates_comparison inside desk ready

theorem simulates_letForm (inside : Simulates levels builder reader) :
    Simulates levels (letForm builder) (Grammar.letForm reader) := by
  intro desk ready
  rw [letForm, Grammar.letForm, get_bind, check_bind, startsWith_eq (by decide)]
  by_cases starts : Grammar.startsWith .letWord desk.parser.rest = true
  · rw [if_pos starts, if_pos starts, position_bind]
    refine (agrees_keyword starts).bind ?_
    intro keyword _ atBound first taken
    have underway := underway_of_taken first taken
    refine (agrees_expect (by decide) atBound).bind ?_
    rintro _ bound atEquals later ⟨rfl, _⟩
    have underway := underway.after later
    refine (agrees_expectText "=" (by decide) atEquals).bind ?_
    intro equals _ atValue later _
    have underway := underway.after later
    refine agrees_closed inside (ready.after underway.follows) (by decide) ?_
    intro value atBody later known _
    have underway := underway.read later known
    refine (inside atBody (ready.after underway.follows)).bind ?_
    rintro _ body last later ⟨rfl, known, _⟩
    exact agrees_nest (underway.read later known) rfl
  · rw [if_neg starts, if_neg starts]
    exact simulates_ifForm inside desk ready

end Rules

/-- Whether reading what was opened succeeds or fails, it is closed. -/
theorem open_eq (builder : Builder Expr) (desk : Desk) :
    (do
      modify Desk.opened
      try builder finally modify Desk.closed : Builder Expr) desk =
      match builder desk.opened with
      | .ok tree last => .ok tree last.closed
      | .error failure last => .error failure last.closed := by
  have opened : (modify Desk.opened : Builder PUnit) desk = .ok () desk.opened := rfl
  rw [bind_ok opened]
  simp only [tryFinally, tryFinally', Functor.map, EStateM.map]
  cases builder desk.opened <;> rfl

theorem closed_follows {desk last : Desk} (follows : last.Follows desk.opened) :
    last.closed.Follows desk where
  tokens := follows.tokens
  strict := follows.strict
  depth := by
    have depth : last.parser.depth = desk.parser.depth + 1 := follows.depth
    show last.parser.depth - 1 = desk.parser.depth
    omega
  left := follows.left
  within := follows.within
  knows := follows.knows

theorem agrees_open {levels : Nat} {builder : Builder Expr} {reader : Reader Expr} {desk : Desk}
    (inside : Simulates levels builder reader) (ready : desk.Ready (levels + 1)) :
    Agrees (Built desk) desk (reader desk.parser.rest)
      ((do
        modify Desk.opened
        try builder finally modify Desk.closed : Builder Expr) desk) := by
  have depth : maxNesting - (desk.parser.depth + 1) = levels := by
    have := ready.depth
    omega
  have agrees := inside desk.opened ⟨ready.leaves, depth⟩
  have rest : desk.opened.parser.rest = desk.parser.rest := rfl
  rw [open_eq, ← rest]
  generalize reader desk.opened.parser.rest = reads at agrees
  generalize builder desk.opened = builds at agrees
  cases agrees with
  | ok follows left built =>
    exact .ok (closed_follows follows) left ⟨built.same, built.known, built.left⟩
  | error follows left within same => exact .error (closed_follows follows) left within same

/-- The bound on nested expressions is not used up because only so many may be open. -/
theorem simulates_expression {levels bound : Nat} (enough : levels < bound) :
    Simulates levels (expression bound) (Grammar.expression levels) := by
  -- On the levels left, which the depth of the desk makes up to the greatest nesting.
  induction levels generalizing bound with
  | zero =>
    intro desk ready
    cases bound with
    | zero => omega
    | succ bound =>
      have deep : maxNesting ≤ desk.parser.depth := by
        have := ready.depth
        omega
      rw [expression, get_bind, if_pos deep]
      exact agrees_fail rfl
  | succ levels ih =>
    intro desk ready
    cases bound with
    | zero => omega
    | succ bound =>
      have shallow : ¬ maxNesting ≤ desk.parser.depth := by
        have := ready.depth
        omega
      rw [expression, get_bind, if_neg shallow]
      exact agrees_open (simulates_letForm (ih (by omega))) ready

/-! ## Programs -/

theorem isEmpty_rest (desk : Desk) :
    (!desk.parser.rest.isEmpty) = decide (desk.parser.position < desk.parser.tokens.length) := by
  by_cases within : desk.parser.position < desk.parser.tokens.length
  · have filled : desk.parser.rest ≠ [] := by
      intro empty
      have := List.drop_eq_nil_iff.mp empty
      omega
    simp [within, filled]
  · have empty : desk.parser.rest = [] := List.drop_eq_nil_iff.mpr (by omega)
    simp [within, empty]

theorem agrees_program {desk : Desk} (ready : desk.Ready maxNesting) :
    Agrees (fun tree result _ => result = tree) desk
      (Grammar.program desk.parser.strict maxNesting desk.parser.rest) (program desk) := by
  refine (simulates_expression (Nat.lt_succ_self _) desk ready).bind ?_
  rintro _ tree last follows ⟨rfl, _, _⟩
  rw [get_bind, get_bind, ← follows.strict, Bool.and_comm, isEmpty_rest]
  by_cases trailing :
      (decide (last.parser.position < last.parser.tokens.length) && last.parser.strict) = true
  · rw [if_pos trailing, if_pos trailing]
    exact agrees_fail rfl
  · rw [if_neg trailing, if_neg trailing]
    exact .ok (Desk.Follows.refl last) rfl rfl

theorem ready_start (parser : Parser) : Desk.Ready parser.levels ⟨parser, []⟩ where
  leaves leaf isLeaf := by
    cases leaf with
    | number | name | hole => rfl
    | _ => simp [Expr.isLeaf, Expr.children] at isLeaf
  depth := rfl

theorem within_of_program {strict : Bool} {tokens rest : List Token} {fault : Fault}
    (failed : Grammar.program strict maxNesting tokens = .error fault rest) :
    fault.Within tokens := by
  have agrees : Agrees (fun tree result _ => result = tree) ⟨.ofTokens strict tokens, []⟩
      (Grammar.program strict maxNesting tokens) (program ⟨.ofTokens strict tokens, []⟩) :=
    agrees_program (ready_start (.ofTokens strict tokens))
  rw [failed] at agrees
  generalize program ⟨.ofTokens strict tokens, []⟩ = builds at agrees
  cases agrees with
  | error _ _ within _ => exact within

/-- Reading tokens by requests ends and gives what the rules of the grammar give. -/
theorem ofTokens_eq (strict : Bool) (tokens : List Token) :
    ofTokens strict tokens = (Program.ofTokens strict tokens).mapError GrammarError.failure := by
  have agrees : Agrees (fun tree result _ => result = tree) ⟨.ofTokens strict tokens, []⟩
      (Grammar.program strict maxNesting tokens) (program ⟨.ofTokens strict tokens, []⟩) :=
    agrees_program (ready_start (.ofTokens strict tokens))
  unfold ofTokens
  generalize program ⟨.ofTokens strict tokens, []⟩ = builds at agrees
  rcases Program.ofTokens_cases strict tokens with
    ⟨tree, left, read, outcome⟩ | ⟨fault, left, read, outcome⟩
  · rw [read] at agrees
    rw [outcome]
    cases agrees with
    | ok follows left same =>
      rw [same]
      rfl
  · rw [read] at agrees
    rw [outcome]
    cases agrees with
    | error _ _ _ same =>
      rw [same]
      rfl

end Stepwise

/-- Reading a text by requests ends and gives what the program reader gives: a tree, a character
that begins no token, or something required that was not found.  No request past the end of the text
or for a token that is not there is made, every number is readable, and no node is without
subtrees. -/
theorem Program.ofText_meets_no_hazard (strict : Bool) (text : String) :
    (∃ tree, Stepwise.ofText strict text = .ok tree ∧ ofText strict text = .ok tree) ∨
    (∃ stray, Stepwise.ofText strict text = .error (.reported (.stray stray)) ∧
      ofText strict text = .error (.stray stray)) ∨
    ∃ mismatch, Stepwise.ofText strict text = .error (.reported (.grammar (.mismatch mismatch))) ∧
      ofText strict text = .error (.grammar (.mismatch mismatch)) := by
  cases lexed : tokenize text with
  | error stray =>
    refine .inr (.inl ⟨stray, ?_, ?_⟩)
    · rw [Stepwise.ofText, Stepwise.tokenize_eq, lexed]
      rfl
    · unfold ofText ofTextNoted
      rw [lexed]
  | ok tokens =>
    have requests : Stepwise.ofText strict text =
        (Stepwise.ofTokens strict tokens).mapError
          (Failure.map fun mismatch => .grammar (.mismatch mismatch)) := by
      rw [Stepwise.ofText, Stepwise.tokenize_eq, lexed]
      rfl
    rw [requests, Stepwise.ofTokens_eq]
    have words := isWord_of_tokenize lexed
    rcases ofTokens_of_words strict words with ⟨tree, read⟩ | ⟨mismatch, failed⟩
    · refine .inl ⟨tree, ?_, ofText_of_ok lexed read⟩
      rw [read]
      rfl
    · refine .inr (.inr ⟨mismatch, ?_, ofText_of_error lexed failed⟩)
      rw [failed]
      rfl

end Funlet
