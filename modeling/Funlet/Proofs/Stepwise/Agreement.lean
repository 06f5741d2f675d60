import Funlet.Proofs.Stepwise.Tokens

/-!
# Readers that agree

A reader of the grammar and a reader by requests agree at a desk if both succeed with related values
or both fail with the same error, the desk reached standing before the tokens that the grammar
leaves.  A desk that follows another knows the height of every tree that the other knew, has no more
tokens ahead and is not past the last token if the other was not; this is what bounds the loops.
Agreement is kept by `>>=`, and every request agrees with the step of the grammar that it stands
for.
-/

set_option autoImplicit false

namespace Funlet

open Grammar (Reader maxNesting)

def GrammarError.failure : GrammarError → Failure Mismatch
  | .mismatch details => .reported details
  | .unreadable text => .hazard (.unreadable text)

/-- The tokens from the one at fault on are the last ones of those being read. -/
def Fault.Within (tokens : List Token) : Fault → Prop
  | .unexpected _ rest => rest <:+ tokens
  | .unreadable _ => True

theorem Parser.length_rest (parser : Parser) :
    parser.rest.length = parser.tokens.length - parser.position :=
  List.length_drop

namespace Stepwise

namespace Desk

def Knows (desk : Desk) (tree : Expr) : Prop := desk.noted tree = tree.height

structure Follows (after before : Desk) : Prop where
  tokens : after.parser.tokens = before.parser.tokens
  strict : after.parser.strict = before.parser.strict
  depth : after.parser.depth = before.parser.depth
  left : after.parser.rest.length ≤ before.parser.rest.length
  within : before.parser.position ≤ before.parser.tokens.length →
    after.parser.position ≤ after.parser.tokens.length
  knows : ∀ tree, before.Knows tree → after.Knows tree

variable {desk before middle after : Desk}

theorem Follows.refl (desk : Desk) : desk.Follows desk :=
  ⟨rfl, rfl, rfl, Nat.le_refl _, id, fun _ known => known⟩

theorem Follows.trans (late : after.Follows middle) (early : middle.Follows before) :
    after.Follows before where
  tokens := late.tokens.trans early.tokens
  strict := late.strict.trans early.strict
  depth := late.depth.trans early.depth
  left := Nat.le_trans late.left early.left
  within inside := late.within (early.within inside)
  knows tree known := late.knows tree (early.knows tree known)

theorem rest_advanced (desk : Desk) : desk.advanced.parser.rest = desk.parser.rest.tail := by
  simp [advanced, Parser.advanced, Parser.rest]

theorem rest_advanced_of_cons {token : Token} {rest : List Token}
    (ahead : desk.parser.rest = token :: rest) : desk.advanced.parser.rest = rest := by
  rw [rest_advanced, ahead, List.tail_cons]

theorem advanced_follows {token : Token} {rest : List Token}
    (ahead : desk.parser.rest = token :: rest) : desk.advanced.Follows desk where
  tokens := rfl
  strict := rfl
  depth := rfl
  left := by
    rw [rest_advanced, List.length_tail]
    omega
  within _ := by
    have left : desk.parser.tokens.length - desk.parser.position = rest.length + 1 := by
      rw [← Parser.length_rest, ahead, List.length_cons]
    show desk.parser.position + 1 ≤ desk.parser.tokens.length
    omega
  knows _ known := known

theorem note_knows {tree : Expr} {height : Nat} (right : height = tree.height) :
    (desk.note tree height).Knows tree := by
  simpa [Knows, noted, note] using right

theorem note_follows {tree : Expr} {height : Nat} (right : height = tree.height) :
    (desk.note tree height).Follows desk where
  tokens := rfl
  strict := rfl
  depth := rfl
  left := Nat.le_refl _
  within := id
  knows other known := by
    by_cases same : other = tree
    · subst same
      exact note_knows right
    · have notSame : (other == tree) = false := by simpa using same
      simpa [Knows, noted, note, List.lookup_cons, notSame] using known

theorem current_eq {token : Token} {rest : List Token} (ahead : desk.parser.rest = token :: rest) :
    desk.parser.current = token := by
  simp [Parser.current, ahead]

end Desk

/-! ## Agreement -/

/-- The outcome of reading the tokens ahead of a desk agrees with the outcome of reading from the
desk by requests; what the two give is related by `related`. -/
inductive Agrees {α β : Type} (related : α → β → Desk → Prop) (desk : Desk) :
    EStateM.Result Fault (List Token) α → EStateM.Result (Failure Mismatch) Desk β → Prop
  | ok {value : α} {result : β} {rest : List Token} {last : Desk} (follows : last.Follows desk)
      (left : last.parser.rest = rest) (holds : related value result last) :
      Agrees related desk (.ok value rest) (.ok result last)
  | error {fault : Fault} {failure : Failure Mismatch} {rest : List Token} {last : Desk}
      (follows : last.Follows desk) (left : last.parser.rest = rest)
      (within : fault.Within desk.parser.tokens)
      (same : failure = (fault.locate desk.parser.tokens.length).failure) :
      Agrees related desk (.error fault rest) (.error failure last)

section Steps

variable {α β γ δ : Type} {related : α → β → Desk → Prop} {final : γ → δ → Desk → Prop}
  {desk : Desk}

theorem Agrees.after {last : Desk} {reads : EStateM.Result Fault (List Token) α}
    {builds : EStateM.Result (Failure Mismatch) Desk β} (agrees : Agrees related last reads builds)
    (follows : last.Follows desk) : Agrees related desk reads builds := by
  cases agrees with
  | ok later left holds => exact .ok (later.trans follows) left holds
  | error later left within same =>
    rw [follows.tokens] at within same
    exact .error (later.trans follows) left within same

theorem Agrees.bind {reader : Reader α} {builder : Builder β} {next : α → Reader γ}
    {next' : β → Builder δ} (agrees : Agrees related desk (reader desk.parser.rest) (builder desk))
    (goesOn : ∀ value result last, last.Follows desk → related value result last →
      Agrees final last (next value last.parser.rest) (next' result last)) :
    Agrees final desk ((reader >>= next) desk.parser.rest) ((builder >>= next') desk) := by
  generalize reads : reader desk.parser.rest = first at agrees
  generalize builds : builder desk = second at agrees
  cases agrees with
  | ok follows left holds =>
    rw [bind_ok reads, bind_ok builds, ← left]
    exact (goesOn _ _ _ follows holds).after follows
  | error follows left within same =>
    rw [bind_error reads, bind_error builds]
    exact .error follows left within same

theorem agrees_fail {expected : Expectation} {tokens : List Token}
    (ahead : desk.parser.rest = tokens) :
    Agrees related desk (.error (.unexpected expected tokens) tokens) (fail expected desk) := by
  subst ahead
  exact .error (Desk.Follows.refl desk) rfl (List.drop_suffix _ _) rfl

end Steps

theorem check_eq {kind : Kind} (texts : List String) (word : kind ≠ .endOfInput) (desk : Desk) :
    desk.parser.check kind texts =
      desk.parser.rest.head?.any fun token =>
        token.kind == kind && (texts.isEmpty || texts.contains token.text) := by
  unfold Parser.check Parser.current
  cases desk.parser.rest with
  | nil =>
    have other : (Kind.endOfInput == kind) = false := by simpa using word.symm
    simp [Token.finish, other]
  | cons token rest => rfl

def Taken (before : Desk) (token result : Token) (last : Desk) : Prop :=
  result = token ∧ before.parser.rest = token :: last.parser.rest

theorem Taken.left {before last : Desk} {token result : Token}
    (taken : Taken before token result last) :
    last.parser.rest.length < before.parser.rest.length := by
  rw [taken.2]
  exact Nat.lt_succ_self _

theorem agrees_advance {desk : Desk} {token : Token} {rest : List Token}
    (ahead : desk.parser.rest = token :: rest) :
    Agrees (Taken desk) desk (.ok token rest) (advance desk) := by
  have left := Desk.rest_advanced_of_cons ahead
  refine .ok (Desk.advanced_follows ahead) left ⟨Desk.current_eq ahead, ?_⟩
  rw [left, ahead]

theorem agrees_expect {kind : Kind} (word : kind ≠ .endOfInput) (desk : Desk) :
    Agrees (Taken desk) desk (Grammar.expect kind desk.parser.rest) (expect kind none desk) := by
  have checked : check kind [] desk = .ok (desk.parser.check kind []) desk := rfl
  rw [expect, Option.toList_none, bind_ok checked, check_eq [] word]
  cases ahead : desk.parser.rest with
  | nil => exact agrees_fail ahead
  | cons token rest =>
    by_cases fits : token.kind = kind
    · rw [Grammar.expect, if_pos fits, if_pos (by simp [fits])]
      exact agrees_advance ahead
    · rw [Grammar.expect, if_neg fits, if_neg (by simp [fits])]
      exact agrees_fail ahead

theorem agrees_expectText {kind : Kind} (text : String) (word : kind ≠ .endOfInput) (desk : Desk) :
    Agrees (Taken desk) desk (Grammar.expectText kind text desk.parser.rest)
      (expect kind (some text) desk) := by
  have checked : check kind [text] desk = .ok (desk.parser.check kind [text]) desk := rfl
  rw [expect, Option.toList_some, bind_ok checked, check_eq [text] word]
  cases ahead : desk.parser.rest with
  | nil => exact agrees_fail ahead
  | cons token rest =>
    by_cases fits : token.kind = kind ∧ token.text = text
    · rw [Grammar.expectText, if_pos fits, if_pos (by simp [fits])]
      exact agrees_advance ahead
    · rw [Grammar.expectText, if_neg fits, if_neg (by simpa using fits)]
      exact agrees_fail ahead

/-! ## Nodes -/

structure Built (before : Desk) (tree result : Expr) (last : Desk) : Prop where
  same : result = tree
  known : last.Knows tree
  left : last.parser.rest.length < before.parser.rest.length

/-- The tallest of a node's known subtrees gives the height of the node. -/
theorem exists_tallest {desk : Desk} {node : Expr}
    (known : ∀ child ∈ node.children, desk.Knows child) (inner : node.isLeaf = false) :
    ∃ tallest, (node.children.map desk.noted).max? = some tallest ∧ 1 + tallest = node.height := by
  rw [List.map_congr_left known]
  cases node with
  | number | name | hole => simp [Expr.isLeaf, Expr.children] at inner
  | binary | apply | letIn | lambda => exact ⟨_, rfl, rfl⟩
  | ifThen condition thenBranch elseBranch =>
    refine ⟨_, rfl, ?_⟩
    rw [Expr.height, ← Nat.max_assoc]
    rfl

/-- A node was begun at a desk.  At a later one, at least one token has been passed, and some of its
subtrees are known. -/
structure Underway (begun : Desk) (trees : List Expr) (desk : Desk) : Prop where
  follows : desk.Follows begun
  left : desk.parser.rest.length < begun.parser.rest.length
  known : ∀ tree ∈ trees, desk.Knows tree

section Underway

variable {begun desk last : Desk} {trees : List Expr}

theorem underway_of_taken {token result : Token} (follows : desk.Follows begun)
    (taken : Taken begun token result desk) : Underway begun [] desk :=
  ⟨follows, taken.left, List.forall_mem_nil _⟩

theorem Underway.after (underway : Underway begun trees desk) (later : last.Follows desk) :
    Underway begun trees last where
  follows := later.trans underway.follows
  left := Nat.lt_of_le_of_lt later.left underway.left
  known tree member := later.knows tree (underway.known tree member)

theorem Underway.read (underway : Underway begun trees desk) {tree : Expr}
    (later : last.Follows desk) (known : last.Knows tree) :
    Underway begun (trees ++ [tree]) last where
  follows := (underway.after later).follows
  left := (underway.after later).left
  known := by
    rw [List.forall_mem_append]
    exact ⟨(underway.after later).known, List.forall_mem_singleton.mpr known⟩

end Underway

/-- A node that was begun at a desk is completed at a later one. -/
theorem agrees_nest {desk last : Desk} {node : Expr} (underway : Underway desk node.children last)
    (inner : node.isLeaf = false) :
    Agrees (Built desk) last (Grammar.grown desk.parser.rest node last.parser.rest)
      (nest desk.parser.position node last) := by
  obtain ⟨follows, left, known⟩ := underway
  obtain ⟨tallest, found, height⟩ := exists_tallest known inner
  rw [nest, get_bind, found, Grammar.grown]
  simp only
  rw [height, follows.tokens]
  by_cases short : node.height ≤ Expr.maxHeight
  · rw [if_pos short, if_neg (by omega)]
    exact .ok (Desk.note_follows rfl) rfl ⟨rfl, Desk.note_knows rfl, left⟩
  · -- A token was passed since the node was begun, so there is one at the index it began at.
    have length := desk.parser.length_rest
    have within : desk.parser.position < desk.parser.tokens.length := by omega
    have start : desk.parser.tokens.length - desk.parser.rest.length = desk.parser.position := by
      omega
    have first : desk.parser.rest.head? = some desk.parser.tokens[desk.parser.position] := by
      rw [Parser.rest, List.head?_drop, List.getElem?_eq_getElem within]
    rw [if_neg short, if_pos (by omega), List.getElem?_eq_getElem within]
    have inside : desk.parser.rest <:+ last.parser.tokens := by
      rw [follows.tokens]
      exact List.drop_suffix _ _
    refine .error (Desk.Follows.refl last) rfl inside ?_
    rw [Fault.locate, follows.tokens, start, first]
    rfl

end Stepwise

end Funlet
