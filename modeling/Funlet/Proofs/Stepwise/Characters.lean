import Funlet.Proofs.Grammar.Readers
import Funlet.Proofs.Token.Layout

/-!
# Reading tokens one request at a time

The tokens of a text are read once more, with nothing but single requests to the cursor: to look at
a character, which is none outside the text, and to move over one, which fails at the end.  Loops
are given a bound and fail when it is used up.  None of these failures occurs, and what is read is
what `tokenize` gives.
-/

set_option autoImplicit false

namespace Funlet

inductive Hazard where
  /-- The cursor was moved at the end of its text. -/
  | pastEnd (fault : PastEnd)
  /-- A loop or a recursion did not end within its bound. -/
  | endless
  /-- The text of a number token is no number. -/
  | unreadable (text : String)
  /-- There is no token at an index. -/
  | noToken (index : Nat)
  /-- The tallest of no subtrees was asked for. -/
  | childless
  deriving DecidableEq

inductive Failure (ε : Type) where
  | reported (error : ε)
  | hazard (hazard : Hazard)
  deriving DecidableEq

def Failure.map {ε δ : Type} (f : ε → δ) : Failure ε → Failure δ
  | .reported error => .reported (f error)
  | .hazard met => .hazard met

namespace Stepwise

/-! ## Requests -/

abbrev Scanner := EStateM (Failure StrayCharacter) Cursor

def next : Scanner Char := fun cursor =>
  match cursor.next with
  | .ok (c, after) => .ok c after
  | .error fault => .error (.hazard (.pastEnd fault)) cursor

def scan (passes : Char → Bool) : (bound : Nat) → Scanner (List Char)
  | 0 => throw (.hazard .endless)
  | bound + 1 => do
    let cursor ← get
    if !cursor.atEnd && (cursor.peek 0).any passes then
      let c ← next
      let more ← scan passes bound
      return c :: more
    else return []

def run (passes : Char → Bool) : Scanner (List Char) := do
  scan passes ((← get).ahead.length + 1)

def skip : (count : Nat) → Scanner Unit
  | 0 => return
  | count + 1 => do
    let _ ← next
    skip count

def readName : Scanner Token := do
  let place := (← get).place
  let word ← run Word.isNameChar
  return ⟨Word.nameKind word, String.ofList word, place⟩

def fractionAhead (cursor : Cursor) : Bool :=
  cursor.peek 0 == some '.' && (cursor.peek 1).any Char.isDigit

def readNumber : Scanner Token := do
  let place := (← get).place
  let whole ← run Char.isDigit
  if fractionAhead (← get) then
    let point ← next
    let fraction ← run Char.isDigit
    return ⟨.number, String.ofList (whole ++ point :: fraction), place⟩
  else return ⟨.number, String.ofList whole, place⟩

/-- The longest mark among a candidate's extensions by at most so many characters, else the best one
so far. -/
def longestMark (cursor : Cursor) (best : Option (Kind × List Char)) (candidate : List Char) :
    (more : Nat) → Option (Kind × List Char)
  | 0 => best
  | more + 1 =>
    match cursor.peek candidate.length with
    | none => best
    | some c =>
      let longer := candidate ++ [c]
      let better :=
        match Word.mark? longer with
        | some kind => some (kind, longer)
        | none => best
      longestMark cursor better longer more

def maxMarkLength : Nat := 2

def readMark : Scanner (Option Token) := do
  let cursor ← get
  match longestMark cursor none [] maxMarkLength with
  | none => return none
  | some (kind, word) =>
    skip word.length
    return some ⟨kind, String.ofList word, cursor.place⟩

def readWord (c : Char) : Scanner Token := do
  if Word.isNameStart c then readName
  else if c.isDigit then readNumber
  else
    match ← readMark with
    | some token => return token
    | none =>
      let cursor ← get
      throw (.reported ⟨cursor.position, cursor.place, c⟩)

def nextToken : Scanner Token := do
  let _ ← run Text.isBlank
  let cursor ← get
  match cursor.peek 0 with
  | none => return .finish cursor.place
  | some c => readWord c

def readTokens : (bound : Nat) → Scanner (List Token)
  | 0 => throw (.hazard .endless)
  | bound + 1 => do
    let token ← nextToken
    if token.kind = .endOfInput then return []
    else
      let more ← readTokens bound
      return token :: more

def tokenize (text : String) : Except (Failure StrayCharacter) (List Token) :=
  match readTokens (text.toList.length + 1) (.ofText text) with
  | .ok tokens _ => .ok tokens
  | .error failure _ => .error failure

/-! ## Agreement -/

theorem next_eq {cursor : Cursor} {c : Char} {rest : List Char} (ahead : cursor.ahead = c :: rest) :
    next cursor = .ok c (cursor.past [c]) := by
  simp only [next, Cursor.next, ahead]

theorem past_past (cursor : Cursor) (first second : List Char) :
    (cursor.past first).past second = cursor.past (first ++ second) := by
  simp [Cursor.past]

theorem ahead_past {cursor : Cursor} {word rest : List Char} (ahead : cursor.ahead = word ++ rest) :
    (cursor.past word).ahead = rest := by
  simp [Cursor.past, ahead]

theorem scan_eq (passes : Char → Bool) {bound : Nat} {cursor : Cursor}
    (enough : cursor.ahead.length < bound) :
    scan passes bound cursor =
      .ok (cursor.ahead.takeWhile passes) (cursor.past (cursor.ahead.takeWhile passes)) := by
  induction bound generalizing cursor with
  | zero => omega
  | succ bound ih =>
    rw [scan, get_bind]
    cases ahead : cursor.ahead with
    | nil =>
      rw [if_neg (by simp [Cursor.atEnd, ahead])]
      rfl
    | cons c rest =>
      by_cases fits : passes c = true
      · have left : (cursor.past [c]).ahead = rest := ahead_past ahead
        have fewer : (cursor.past [c]).ahead.length < bound := by
          rw [ahead, List.length_cons] at enough
          rw [left]
          omega
        rw [if_pos (by simp [Cursor.atEnd, Cursor.peek, ahead, fits]), bind_ok (next_eq ahead),
          bind_ok (ih fewer), left, past_past, List.takeWhile_cons_of_pos fits]
        rfl
      · rw [if_neg (by simp [Cursor.atEnd, Cursor.peek, ahead, fits]),
          List.takeWhile_cons_of_neg fits]
        rfl

theorem run_eq (passes : Char → Bool) (cursor : Cursor) :
    run passes cursor =
      .ok (cursor.ahead.takeWhile passes) (cursor.past (cursor.ahead.takeWhile passes)) := by
  rw [run, get_bind, scan_eq passes (Nat.lt_succ_self _)]

theorem skip_eq {cursor : Cursor} {word rest : List Char} (ahead : cursor.ahead = word ++ rest) :
    skip word.length cursor = .ok () (cursor.past word) := by
  induction word generalizing cursor with
  | nil => rfl
  | cons c word ih =>
    rw [List.length_cons, skip, bind_ok (next_eq ahead), ih (ahead_past ahead), past_past]
    rfl

theorem readName_eq (cursor : Cursor) :
    readName cursor = .ok cursor.readName.1 cursor.readName.2 := by
  rw [readName, get_bind, bind_ok (run_eq _ _)]
  rfl

theorem number_of_fractionAhead {cursor : Cursor} {text : List Char}
    (left : cursor.ahead = text.dropWhile Char.isDigit) (fraction : fractionAhead cursor = true) :
    ∃ rest, cursor.ahead = '.' :: rest ∧
      Word.number text = text.takeWhile Char.isDigit ++ '.' :: rest.takeWhile Char.isDigit := by
  simp only [fractionAhead, Cursor.peek, Bool.and_eq_true, beq_iff_eq] at fraction
  obtain ⟨point, digit⟩ := fraction
  cases ahead : cursor.ahead with
  | nil => simp [ahead] at point
  | cons c rest =>
    obtain rfl : c = '.' := by simpa [ahead] using point
    cases rest with
    | nil => simp [ahead] at digit
    | cons d rest =>
      have digit : d.isDigit = true := by simpa [ahead] using digit
      refine ⟨d :: rest, rfl, ?_⟩
      rw [Word.number, ← left, ahead]
      simp [digit]

theorem number_of_not_fractionAhead {cursor : Cursor} {text : List Char}
    (left : cursor.ahead = text.dropWhile Char.isDigit) (none : fractionAhead cursor ≠ true) :
    Word.number text = text.takeWhile Char.isDigit := by
  rw [Word.number, ← left]
  split
  · rename_i rest ahead
    have stops : rest.takeWhile Char.isDigit = [] := by
      cases rest with
      | nil => rfl
      | cons d rest =>
        have other : ¬ d.isDigit = true := by simpa [fractionAhead, Cursor.peek, ahead] using none
        exact List.takeWhile_cons_of_neg other
    rw [if_pos stops, List.append_nil]
  · rw [List.append_nil]

theorem readNumber_eq (cursor : Cursor) :
    readNumber cursor = .ok cursor.readNumber.1 cursor.readNumber.2 := by
  have split := List.takeWhile_append_dropWhile (p := Char.isDigit) (l := cursor.ahead)
  have left := ahead_past split.symm
  rw [readNumber, get_bind, bind_ok (run_eq _ _), get_bind]
  by_cases fraction : fractionAhead (cursor.past (cursor.ahead.takeWhile Char.isDigit)) = true
  · obtain ⟨rest, ahead, number⟩ := number_of_fractionAhead left fraction
    have last : ((cursor.past (cursor.ahead.takeWhile Char.isDigit)).past ['.']).ahead = rest :=
      ahead_past ahead
    rw [if_pos fraction, bind_ok (next_eq ahead), bind_ok (run_eq _ _), last, past_past, past_past]
    simp only [Cursor.readNumber, number, Cursor.take, List.cons_append, List.nil_append]
    rfl
  · rw [if_neg fraction]
    simp only [Cursor.readNumber, number_of_not_fractionAhead left fraction, Cursor.take]
    rfl

/-- The candidates are the first one and the first two characters, and the longer is the better. -/
theorem longestMark_eq (cursor : Cursor) :
    longestMark cursor none [] maxMarkLength = Word.mark cursor.ahead := by
  have peeks (n : Nat) : cursor.peek n = cursor.ahead[n]? := rfl
  simp only [longestMark, maxMarkLength, Word.mark, peeks]
  cases cursor.ahead with
  | nil => rfl
  | cons c rest =>
    cases rest with
    | nil =>
      have one : [c].take 1 = [c] := rfl
      have two : [c].take 2 = [c] := rfl
      rw [one, two]
      show (match Word.mark? [c] with
        | some kind => some (kind, [c])
        | none => none) = _
      cases Word.mark? [c] <;> rfl
    | cons d rest => rfl

theorem readMark_eq (cursor : Cursor) :
    readMark cursor =
      match cursor.readMark with
      | some (token, after) => .ok (some token) after
      | none => .ok none cursor := by
  rw [readMark, get_bind, longestMark_eq, Cursor.readMark]
  cases found : Word.mark cursor.ahead with
  | none => rfl
  | some mark =>
    obtain ⟨kind, word⟩ := mark
    obtain ⟨rest, ahead⟩ := (Word.isLongest_mark found).1.front
    simp only
    rw [bind_ok (skip_eq ahead.symm)]
    rfl

theorem readWord_eq {cursor : Cursor} {c : Char} {rest : List Char}
    (ahead : cursor.ahead = c :: rest) :
    readWord c cursor =
      match Word.first? cursor.ahead with
      | some (kind, word) => .ok (cursor.take kind word).1 (cursor.take kind word).2
      | none => .error (.reported ⟨cursor.position, cursor.place, c⟩) cursor := by
  rw [readWord, ahead, Word.first?]
  by_cases letter : Word.isNameStart c = true
  · rw [if_pos letter, if_pos letter, readName_eq, Cursor.readName, ahead]
  · rw [if_neg letter, if_neg letter]
    by_cases digit : c.isDigit = true
    · rw [if_pos digit, if_pos digit, readNumber_eq, Cursor.readNumber, ahead]
    · rw [if_neg digit, if_neg digit]
      have reads := readMark_eq cursor
      rw [Cursor.readMark, ahead] at reads
      cases found : Word.mark (c :: rest) with
      | none =>
        rw [found] at reads
        rw [bind_ok reads]
        rfl
      | some mark =>
        rw [found] at reads
        rw [bind_ok reads]
        rfl

/-- A token is read as the cursor reads it. -/
theorem nextToken_eq (cursor : Cursor) :
    nextToken cursor =
      match cursor.read with
      | .token token after => .ok token after
      | .finished after => .ok (.finish after.place) after
      | .stuck stray after => .error (.reported stray) after := by
  have start : cursor.past (cursor.ahead.takeWhile Text.isBlank) = cursor.skipBlanks := rfl
  rw [nextToken, bind_ok (run_eq _ _), start, get_bind, Cursor.read]
  generalize cursor.skipBlanks = start
  have front : start.peek 0 = start.ahead[0]? := rfl
  rw [front]
  cases ahead : start.ahead with
  | nil => rfl
  | cons c rest =>
    have word := readWord_eq ahead
    rw [ahead] at word
    cases found : Word.first? (c :: rest) with
    | none =>
      rw [found] at word
      exact word
    | some first =>
      rw [found] at word
      exact word

/-- The bound on the number of tokens is not used up, because every token has characters. -/
theorem readTokens_eq {bound : Nat} {cursor : Cursor} (enough : cursor.ahead.length < bound) :
    readTokens bound cursor =
      match cursor.readAll with
      | (.ok tokens, last) => .ok tokens last
      | (.error stray, last) => .error (.reported stray) last := by
  induction bound generalizing cursor with
  | zero => omega
  | succ bound ih =>
    have first := nextToken_eq cursor
    rw [readTokens, Cursor.readAll_eq]
    cases read : cursor.read with
    | finished after =>
      rw [read] at first
      rw [bind_ok first]
      rfl
    | stuck stray after =>
      rw [read] at first
      rw [bind_error first]
    | token token after =>
      rw [read] at first
      have shorter := Cursor.length_ahead_of_read read
      have fewer : after.ahead.length < bound := by omega
      obtain ⟨_, _, _, _, word⟩ := Cursor.exists_word_of_read read
      have goesOn := (Word.munches_of_first? word).kind_ne_endOfInput
      have more := ih fewer
      rw [bind_ok first, if_neg goesOn]
      simp only
      cases reads : after.readAll with
      | mk outcome last =>
        rw [reads] at more
        cases outcome with
        | ok tokens =>
          rw [bind_ok more]
          rfl
        | error stray => rw [bind_error more]

/-- Reading tokens by single requests ends, runs into no hazard and gives the tokens of the text or
its stray character. -/
theorem tokenize_eq (text : String) :
    tokenize text = (Funlet.tokenize text).mapError .reported := by
  have enough : (Cursor.ofText text).ahead.length < text.toList.length + 1 := Nat.lt_succ_self _
  have reads := readTokens_eq enough
  unfold tokenize Funlet.tokenize
  rw [reads]
  rcases (Cursor.ofText text).readAll with ⟨_ | _, last⟩ <;> rfl

end Stepwise

end Funlet
