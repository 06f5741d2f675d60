import Funlet.Proofs.Grammar.Phrase

/-!
# Equations of the readers

What each rule does when it sees the next tokens, one equation for each way it can go.  The other
modules use these equations and do not open the readers.
-/

set_option autoImplicit false

namespace Funlet

section Steps

variable {ε σ α β : Type}

theorem get_bind (next : σ → EStateM ε σ α) (state : σ) :
    ((get : EStateM ε σ σ) >>= next) state = next state state := rfl

theorem set_bind (changed : σ) (next : PUnit → EStateM ε σ α) (state : σ) :
    ((set changed : EStateM ε σ PUnit) >>= next) state = next () changed := rfl

theorem bind_ok {first : EStateM ε σ α} {next : α → EStateM ε σ β} {state after : σ} {value : α}
    (reads : first state = .ok value after) : (first >>= next) state = next value after := by
  simp [bind, EStateM.bind, reads]

theorem bind_error {first : EStateM ε σ α} {next : α → EStateM ε σ β} {state after : σ} {fault : ε}
    (fails : first state = .error fault after) :
    (first >>= next) state = .error fault after := by
  simp [bind, EStateM.bind, fails]

end Steps

namespace Grammar

theorem exists_terminal_of_startsWith {kind : Kind} {tokens : List Token}
    (starts : startsWith kind tokens = true) :
    ∃ (token : Terminal kind) (rest : List Token), tokens = token.1 :: rest := by
  cases tokens with
  | nil => simp [startsWith] at starts
  | cons token rest => exact ⟨⟨token, by simpa [startsWith] using starts⟩, rest, rfl⟩

theorem expect_terminal {kind : Kind} (token : Terminal kind) (rest : List Token) :
    expect kind (token.1 :: rest) = .ok token.1 rest := by
  simp [expect, token.2]

theorem expectText_sign {text : String} (token : Sign [text]) (rest : List Token) :
    expectText .operator text (token.1 :: rest) = .ok token.1 rest := by
  have fits : token.1.kind = .operator ∧ token.1.text = text := by simpa using token.2
  simp [expectText, fits]

section Rules

variable {expression : Reader Expr}

theorem lambdaForm_keyword (keyword : Terminal .lambda) (rest : List Token) :
    lambdaForm expression (keyword.1 :: rest) =
      (do
        let parameter ← expect .name
        let _ ← expect .arrow
        let body ← expression
        grown (keyword.1 :: rest) (.lambda parameter.text body) : Reader Expr) rest := by
  simp only [lambdaForm, get_bind]
  rw [bind_ok (expect_terminal keyword _)]

theorem atom_number (token : Terminal .number) (rest : List Token) :
    atom expression (token.1 :: rest) = numberAtom token.1 rest (token.1 :: rest) := by
  simp only [atom, get_bind, token.2]

theorem numberAtom_eq (token : Token) (rest tokens : List Token) :
    numberAtom token rest tokens =
      match Numeral.readReal? token.text with
      | none => .error (.unreadable token.text) tokens
      | some value =>
        if value.isInfinite then .error (.unexpected .finiteNumber tokens) tokens
        else .ok (.number value) rest := by
  unfold numberAtom
  cases Numeral.readReal? token.text with
  | none => rfl
  | some value =>
    cases infinite : value.isInfinite with
    | true => simp only [infinite, if_true, fail]
    | false => simp only [infinite, Bool.false_eq_true, if_false, set_bind]; rfl

theorem atom_name (token : Terminal .name) (rest : List Token) :
    atom expression (token.1 :: rest) = .ok (.name token.1.text) rest := by
  simp only [atom, get_bind, token.2]
  rfl

theorem atom_paren (opening : Terminal .leftParen) (rest : List Token) :
    atom expression (opening.1 :: rest) =
      (do
        let inner ← expression
        let _ ← expect .rightParen
        return inner : Reader Expr) rest := by
  simp only [atom, get_bind, opening.2]
  rfl

theorem atom_lambda (keyword : Terminal .lambda) (rest : List Token) :
    atom expression (keyword.1 :: rest) = lambdaForm expression (keyword.1 :: rest) := by
  simp only [atom, get_bind, keyword.2]

theorem atom_fails {tokens : List Token} (other : startsAtom tokens = false) :
    atom expression tokens = .error (.unexpected .expression tokens) tokens := by
  cases tokens with
  | nil => rfl
  | cons token rest =>
    simp only [atom, get_bind]
    simp only [startsAtom] at other
    split at other <;> simp_all [fail]

theorem application_eq (tokens : List Token) :
    application expression tokens =
      (do
        let function ← atom expression
        let rest ← get
        arguments expression rest.length function : Reader Expr) tokens := rfl

theorem arguments_cons {bound : Nat} {function : Expr} {tokens : List Token}
    (starts : startsAtom tokens = true) :
    arguments expression (bound + 1) function tokens =
      (do
        let argument ← atom expression
        let node ← grown tokens (.apply function argument)
        arguments expression bound node : Reader Expr) tokens := by
  simp only [arguments, get_bind, starts, if_true]

theorem arguments_stop (bound : Nat) (function : Expr) {tokens : List Token}
    (stops : startsAtom tokens = false) :
    arguments expression bound function tokens = .ok function tokens := by
  cases bound with
  | zero => rfl
  | succ bound =>
    simp only [arguments, get_bind, stops]
    rfl

theorem operations_cons {operators : List String} {operand : Reader Expr} {bound : Nat}
    {left : Expr} {token : Token} {rest : List Token}
    (starts : startsOperator operators (token :: rest) = true) :
    operations operators operand (bound + 1) left (token :: rest) =
      (do
        let right ← operand
        let node ← grown (token :: rest) (.binary token.text left right)
        operations operators operand bound node : Reader Expr) rest := by
  simp only [operations, get_bind, starts, if_true, set_bind]

theorem operations_stop {operators : List String} {operand : Reader Expr} (bound : Nat)
    (left : Expr) {tokens : List Token} (stops : startsOperator operators tokens = false) :
    operations operators operand bound left tokens = .ok left tokens := by
  cases bound with
  | zero => rfl
  | succ bound =>
    cases tokens with
    | nil => rfl
    | cons token rest =>
      simp only [operations, get_bind, stops]
      rfl

theorem ifForm_if (keyword : Terminal .ifWord) (rest : List Token) :
    ifForm expression (keyword.1 :: rest) =
      (do
        let condition ← expression
        let _ ← expect .thenWord
        let thenBranch ← expression
        let _ ← expect .elseWord
        let elseBranch ← expression
        grown (keyword.1 :: rest) (.ifThen condition thenBranch elseBranch) : Reader Expr)
        rest := by
  have starts : startsWith .ifWord (keyword.1 :: rest) = true := by simp [startsWith, keyword.2]
  simp only [ifForm, get_bind, starts, if_true]
  rw [bind_ok (expect_terminal keyword _)]

theorem ifForm_other (expression : Reader Expr) {tokens : List Token}
    (other : startsWith .ifWord tokens = false) :
    ifForm expression tokens = comparison expression tokens := by
  simp only [ifForm, get_bind, other, Bool.false_eq_true, if_false]

theorem letForm_let (keyword : Terminal .letWord) (rest : List Token) :
    letForm expression (keyword.1 :: rest) =
      (do
        let bound ← expect .name
        let _ ← expectText .operator "="
        let value ← expression
        let _ ← expect .inWord
        let body ← expression
        grown (keyword.1 :: rest) (.letIn bound.text value body) : Reader Expr) rest := by
  have starts : startsWith .letWord (keyword.1 :: rest) = true := by simp [startsWith, keyword.2]
  simp only [letForm, get_bind, starts, if_true]
  rw [bind_ok (expect_terminal keyword _)]

theorem letForm_other (expression : Reader Expr) {tokens : List Token}
    (other : startsWith .letWord tokens = false) :
    letForm expression tokens = ifForm expression tokens := by
  simp only [letForm, get_bind, other, Bool.false_eq_true, if_false]

end Rules

end Grammar

end Funlet
