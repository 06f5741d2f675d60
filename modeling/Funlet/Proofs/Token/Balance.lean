import Funlet.Proofs.Token.Munch

/-!
# Parentheses in a text

Parentheses are counted in a text, and those that match are found.  A text is matched if it has
closed all that it has opened, and never more than that up to any of its characters.  In matched
texts that stand one behind the other, a matching pair is in one of them.
-/

set_option autoImplicit false

namespace Funlet

/-! ## Counting -/

namespace Text

/-- The number of parentheses opened in a text less the number closed. -/
def balance (text : List Char) : Int := (text.count '(' : Int) - text.count ')'

def Plain (text : List Char) : Prop := ∀ c ∈ text, c ≠ '(' ∧ c ≠ ')'

instance (text : List Char) : Decidable (Plain text) :=
  decidable_of_iff (text.all (fun c => c != '(' && c != ')') = true) (by simp [Plain])

@[simp]
theorem balance_nil : balance [] = 0 := rfl

theorem balance_append (first second : List Char) :
    balance (first ++ second) = balance first + balance second := by
  simp only [balance, List.count_append, Int.natCast_add]
  omega

theorem Plain.balance_eq_zero {text : List Char} (plain : Plain text) : balance text = 0 := by
  have noOpening : text.count '(' = 0 :=
    List.count_eq_zero.mpr fun member => (plain _ member).1 rfl
  have noClosing : text.count ')' = 0 :=
    List.count_eq_zero.mpr fun member => (plain _ member).2 rfl
  simp [balance, noOpening, noClosing]

theorem Plain.front {front text : List Char} (plain : Plain text) (begins : front <+: text) :
    Plain front :=
  fun c member => plain c (begins.subset member)

theorem plain_of_blank {text : List Char} (blank : ∀ c ∈ text, isBlank c = true) : Plain text := by
  intro c member
  have isBlank := blank c member
  constructor <;> rintro rfl <;> exact absurd isBlank (by decide)

theorem plain_of_isNameChar {text : List Char} (inside : text.all Word.isNameChar = true) :
    Plain text := by
  intro c member
  have isNameChar := List.all_eq_true.mp inside c member
  constructor <;> rintro rfl <;> exact absurd isNameChar (by decide)

theorem plain_of_isLiteralChar {text : List Char} (literal : ∀ c ∈ text, IsLiteralChar c) :
    Plain text := by
  intro c member
  have bounds := (literal c member).toNat_bounds
  constructor <;> rintro rfl <;> exact absurd bounds.1 (by decide)

theorem parentheses_of_mark? {word : List Char} {kind : Kind}
    (mark : Word.mark? word = some kind) :
    (word = ['('] ∧ kind = .leftParen) ∨ (word = [')'] ∧ kind = .rightParen) ∨
      (Plain word ∧ kind ≠ .leftParen ∧ kind ≠ .rightParen) := by
  unfold Word.mark? at mark
  split at mark <;> simp only [Option.some.injEq, reduceCtorEq] at mark <;> subst mark <;>
    simp [Plain]

theorem front_of_singleton {front : List Char} {c : Char} (begins : front <+: [c]) :
    front = [] ∨ front = [c] := by
  rcases List.prefix_cons_iff.mp begins with none | ⟨more, whole, empty⟩
  · exact .inl none
  · rw [List.prefix_nil.mp empty] at whole
    exact .inr whole

theorem front_of_append {front first second : List Char} (begins : front <+: first ++ second) :
    front <+: first ∨ ∃ more, front = first ++ more ∧ more <+: second := by
  obtain ⟨back, whole⟩ := begins
  rcases List.append_eq_append_iff.mp whole with ⟨middle, split, _⟩ | ⟨more, split, tail⟩
  · exact .inl ⟨middle, split.symm⟩
  · exact .inr ⟨more, split, back, tail.symm⟩

@[simp]
theorem balance_opening (text : List Char) : balance ('(' :: text) = balance text + 1 := by
  simp only [balance, List.count_cons_self, List.count_cons_of_ne (by decide : ('(' : Char) ≠ ')')]
  omega

@[simp]
theorem balance_closing (text : List Char) : balance (')' :: text) = balance text - 1 := by
  simp only [balance, List.count_cons_self, List.count_cons_of_ne (by decide : (')' : Char) ≠ '(')]
  omega

/-! ## Matched texts -/

/-- A text closes all parentheses that it has opened, and never one that it has not. -/
structure Matched (text : List Char) : Prop where
  closed : balance text = 0
  opened : ∀ front, front <+: text → 0 ≤ balance front

theorem Plain.matched {text : List Char} (plain : Plain text) : Matched text where
  closed := plain.balance_eq_zero
  opened := fun _ begins => (plain.front begins).balance_eq_zero.ge

theorem Matched.append {first second : List Char} (early : Matched first) (late : Matched second) :
    Matched (first ++ second) where
  closed := by rw [balance_append, early.closed, late.closed, Int.zero_add]
  opened := by
    intro front begins
    rcases front_of_append begins with inFirst | ⟨more, rfl, inSecond⟩
    · exact early.opened front inFirst
    · rw [balance_append, early.closed, Int.zero_add]
      exact late.opened more inSecond

theorem Matched.spaced {first second : List Char} (early : Matched first)
    (late : Matched second) : Matched (first ++ ' ' :: second) := by
  have space : Plain [' '] := by simp [Plain]
  exact early.append (space.matched.append late)

theorem Plain.spaced {word rest : List Char} (plain : Plain word) (matched : Matched rest) :
    Matched (word ++ ' ' :: rest) :=
  plain.matched.spaced matched

/-- Behind an opening parenthesis a matched text is not closed before it has ended. -/
theorem Matched.front_parenthesized {inside front : List Char} (matched : Matched inside)
    (begins : front <+: '(' :: (inside ++ [')'])) :
    front = [] ∨ 0 < balance front ∨ front = '(' :: (inside ++ [')']) := by
  rcases List.prefix_cons_iff.mp begins with none | ⟨more, rfl, shown⟩
  · exact .inl none
  · right
    rcases front_of_append shown with within | ⟨last, rfl, closing⟩
    · have := matched.opened more within
      rw [balance_opening]
      exact .inl (by omega)
    · rcases front_of_singleton closing with rfl | rfl
      · rw [balance_opening, List.append_nil, matched.closed]
        exact .inl (by decide)
      · exact .inr rfl

theorem Matched.parenthesized {inside : List Char} (matched : Matched inside) :
    Matched ('(' :: (inside ++ [')'])) := by
  have closed : balance ('(' :: (inside ++ [')'])) = 0 := by
    rw [balance_opening, balance_append, matched.closed, balance_closing]
    rfl
  refine ⟨closed, fun front begins => ?_⟩
  rcases matched.front_parenthesized begins with rfl | open_ | rfl
  · exact Int.le_refl 0
  · exact Int.le_of_lt open_
  · exact closed.ge

/-! ## Matching pairs -/

/-- Two matching parentheses of a text, with what stands before, between and behind them. -/
structure Pair (text front middle back : List Char) : Prop where
  stands : text = front ++ '(' :: (middle ++ ')' :: back)
  matched : Matched middle

theorem Plain.no_pair {text front middle back : List Char} (plain : Plain text) :
    ¬ Pair text front middle back := by
  intro pair
  have member : '(' ∈ text := by
    rw [pair.stands]
    simp
  exact (plain _ member).1 rfl

theorem Pair.of_append {first second front middle back : List Char}
    (pair : Pair (first ++ second) front middle back) (matched : Matched first) :
    (∃ rest, back = rest ++ second ∧ Pair first front middle rest) ∨
      ∃ start, front = first ++ start ∧ Pair second start middle back := by
  rcases List.append_eq_append_iff.mp pair.stands with
    ⟨start, split, tail⟩ | ⟨more, split, tail⟩
  · exact .inr ⟨start, split, tail, pair.matched⟩
  · cases more with
    | nil =>
      rw [List.append_nil] at split
      exact .inr ⟨[], by simp [split], tail.symm, pair.matched⟩
    | cons c more =>
      obtain ⟨rfl, behind⟩ := List.cons.inj tail
      have begun := matched.opened front ⟨'(' :: more, split.symm⟩
      have closed := matched.closed
      rw [split, balance_append, balance_opening] at closed
      -- The first text cannot end between the two: it would have to be closed there.
      rcases List.append_eq_append_iff.mp behind with ⟨last, within, rest⟩ | ⟨last, within, rest⟩
      · cases last with
        | nil =>
          rw [List.append_nil] at within
          rw [within, pair.matched.closed] at closed
          omega
        | cons d last =>
          obtain ⟨rfl, after⟩ := List.cons.inj rest
          exact .inl ⟨last, after, by rw [split, within], pair.matched⟩
      · have := pair.matched.opened more ⟨last, within.symm⟩
        omega

theorem Pair.of_spaced {first second front middle back : List Char}
    (pair : Pair (first ++ ' ' :: second) front middle back) (matched : Matched first) :
    (∃ rest, back = rest ++ ' ' :: second ∧ Pair first front middle rest) ∨
      ∃ start, front = first ++ ' ' :: start ∧ Pair second start middle back := by
  rcases pair.of_append matched with inFirst | ⟨start, rfl, behind⟩
  · exact .inl inFirst
  · cases start with
    | nil => exact absurd (List.cons.inj behind.stands).1 (by decide)
    | cons c start =>
      obtain ⟨rfl, inSecond⟩ := List.cons.inj behind.stands
      exact .inr ⟨start, rfl, inSecond, pair.matched⟩

theorem Pair.of_word {word rest front middle back : List Char}
    (pair : Pair (word ++ ' ' :: rest) front middle back) (plain : Plain word) :
    ∃ start, front = word ++ ' ' :: start ∧ Pair rest start middle back := by
  rcases pair.of_spaced plain.matched with ⟨_, _, inWord⟩ | behind
  · exact absurd inWord plain.no_pair
  · exact behind

theorem Pair.of_parenthesized {inside front middle back : List Char}
    (pair : Pair ('(' :: (inside ++ [')'])) front middle back) (matched : Matched inside) :
    (front = [] ∧ middle = inside ∧ back = []) ∨
      ∃ start rest, front = '(' :: start ∧ back = rest ++ [')'] ∧
        Pair inside start middle rest := by
  have stands := pair.stands
  have closed := matched.closed
  cases front with
  | nil =>
    have same := (List.cons.inj stands).2
    rcases List.eq_nil_or_concat back with rfl | ⟨rest, last, rfl⟩
    · exact .inl ⟨rfl, (List.append_inj_left' same rfl).symm, rfl⟩
    · have whole : inside ++ [')'] = (middle ++ ')' :: rest) ++ [last] := by simpa using same
      have within : inside = middle ++ ')' :: rest := List.append_inj_left' whole rfl
      have early := matched.opened (middle ++ [')']) ⟨rest, by simp [within]⟩
      rw [balance_append, pair.matched.closed, balance_closing] at early
      exact absurd early (by decide)
  | cons c start =>
    obtain ⟨rfl, same⟩ := List.cons.inj stands
    rcases List.eq_nil_or_concat back with rfl | ⟨rest, last, rfl⟩
    · have whole : inside ++ [')'] = (start ++ '(' :: middle) ++ [')'] := by simpa using same
      have within : inside = start ++ '(' :: middle := List.append_inj_left' whole rfl
      have early := matched.opened start ⟨'(' :: middle, within.symm⟩
      rw [within, balance_append, balance_opening, pair.matched.closed] at closed
      omega
    · have whole : inside ++ [')'] = (start ++ '(' :: (middle ++ ')' :: rest)) ++ [last] := by
        simpa using same
      obtain ⟨within, end_⟩ := List.append_inj' whole rfl
      obtain rfl := (List.cons.inj end_).1
      exact .inr ⟨start, rest, rfl, by simp, within, pair.matched⟩

end Text

end Funlet
