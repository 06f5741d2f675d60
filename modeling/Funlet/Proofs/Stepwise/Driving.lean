import Funlet.Proofs.Stepwise.Characters
import Funlet.Proofs.Token.Lookahead
import Funlet.Token.Stepwise

/-!
# Driving a cursor in any way

A cursor may be driven by any requests in any order, at any character and after errors.  All that
a request can do to it is to move it over some of the characters ahead.  So after every request the
cursor stands where its counters say, and what was moved over is the text between the two positions.
-/

set_option autoImplicit false

namespace Funlet.Cursor

/-! ## Cursors in a text -/

/-- A cursor stands in a text: its position is one of the text, and the place that it tells is
counted over the characters before that position. -/
structure StandsIn (cursor : Cursor) (text : List Char) : Prop where
  whole : text = cursor.behind.reverse ++ cursor.ahead
  within : cursor.position ≤ text.length
  line : cursor.place.line = 1 + (text.take cursor.position).count '\n'
  column : cursor.place.column =
    1 + ((text.take cursor.position).reverse.takeWhile (· ≠ '\n')).length

def between (text : List Char) (before after : Cursor) : List Char :=
  (text.drop before.position).take (after.position - before.position)

structure Passes (text : List Char) (before after : Cursor) (passed : List Char) : Prop where
  front : passed <+: before.ahead
  moved : after = before.past passed
  stands : after.StandsIn text
  onward : after.position = before.position + passed.length
  between : between text before after = passed

variable {text : List Char} {cursor before after last : Cursor}

theorem take_position (whole : text = cursor.behind.reverse ++ cursor.ahead) :
    text.take cursor.position = cursor.behind.reverse ∧
      text.drop cursor.position = cursor.ahead := by
  have length : cursor.position = cursor.behind.reverse.length := List.length_reverse.symm
  rw [whole, length]
  exact ⟨List.take_left, List.drop_left⟩

theorem standsIn_iff :
    cursor.StandsIn text ↔ text = cursor.behind.reverse ++ cursor.ahead ∧ cursor.Placed := by
  constructor
  · intro stands
    have place := Place.start_after (text.take cursor.position)
    refine ⟨stands.whole, ?_⟩
    rw [Placed, ← (take_position stands.whole).1, place]
    exact congrArg₂ Place.mk stands.line stands.column
  · rintro ⟨whole, placed⟩
    have place := Place.start_after (text.take cursor.position)
    rw [(take_position whole).1, ← placed] at place
    exact {
      whole := whole
      within := by simp [whole, position]
      line := by rw [(take_position whole).1]; exact congrArg Place.line place
      column := by rw [(take_position whole).1]; exact congrArg Place.column place }

theorem ofText_standsIn (text : String) : (ofText text).StandsIn text.toList :=
  standsIn_iff.mpr ⟨rfl, rfl⟩

/-- The one thing that a request does to a cursor: moving it over characters ahead. -/
theorem StandsIn.passes (stands : cursor.StandsIn text) {word : List Char}
    (front : word <+: cursor.ahead) : Passes text cursor (cursor.past word) word := by
  obtain ⟨whole, placed⟩ := standsIn_iff.mp stands
  obtain ⟨rest, split⟩ := front
  have ahead : (cursor.past word).ahead = rest := Stepwise.ahead_past split.symm
  have onward : (cursor.past word).position = cursor.position + word.length := by
    simp [past, position, Nat.add_comm]
  have moved : (cursor.past word).StandsIn text := by
    refine standsIn_iff.mpr ⟨?_, ?_⟩
    · rw [ahead, whole, ← split]
      simp [past]
    · rw [Placed] at placed ⊢
      simp [past, placed]
  refine ⟨⟨rest, split⟩, rfl, moved, onward, ?_⟩
  rw [between, onward, (take_position whole).2, Nat.add_sub_cancel_left, ← split]
  exact List.take_left

theorem StandsIn.stays (stands : cursor.StandsIn text) : Passes text cursor cursor [] := by
  have moved := stands.passes List.nil_prefix
  have same : cursor.past [] = cursor := rfl
  rwa [same] at moved

theorem Passes.trans {first second : List Char} (stands : before.StandsIn text)
    (early : Passes text before after first) (late : Passes text after last second) :
    Passes text before last (first ++ second) := by
  obtain ⟨rest, split⟩ := early.front
  have ahead : after.ahead = rest := by rw [early.moved, Stepwise.ahead_past split.symm]
  have whole : first ++ second <+: before.ahead := by
    rw [← split, ← ahead]
    exact (List.prefix_append_right_inj first).mpr late.front
  have moved : last = before.past (first ++ second) := by
    rw [late.moved, early.moved, Stepwise.past_past]
  rw [moved]
  exact stands.passes whole

/-! ## What reading passes -/

theorem skipBlanks_passes (stands : cursor.StandsIn text) :
    ∃ gap, (∀ c ∈ gap, Text.isBlank c = true) ∧ Passes text cursor cursor.skipBlanks gap :=
  ⟨cursor.ahead.takeWhile Text.isBlank, fun _ member => List.mem_takeWhile_imp member,
    stands.passes (List.takeWhile_prefix _)⟩

theorem skipBlanks_skipBlanks (cursor : Cursor) :
    cursor.skipBlanks.skipBlanks = cursor.skipBlanks := by
  obtain ⟨gap, rest, split, blank, stops⟩ := exists_gap cursor
  obtain ⟨behind, ahead, place⟩ := cursor
  obtain rfl : ahead = gap ++ rest := split
  rw [skipBlanks_eq behind place blank stops, skipBlanks]
  simp only [stops]
  rfl

theorem visible_of_skipBlanks {c : Char} {rest : List Char}
    (front : cursor.skipBlanks.ahead = c :: rest) : Text.isBlank c = false := by
  obtain ⟨gap, more, split, blank, stops⟩ := exists_gap cursor
  obtain ⟨behind, ahead, place⟩ := cursor
  obtain rfl : ahead = gap ++ more := split
  rw [skipBlanks_eq behind place blank stops] at front
  obtain rfl : more = c :: rest := front
  by_contra isBlank
  have taken : (c :: rest).takeWhile Text.isBlank = c :: rest.takeWhile Text.isBlank :=
    List.takeWhile_cons_of_pos (by simpa using isBlank)
  rw [taken] at stops
  cases stops

/-- A token is what was passed between two cursors, but for blanks before it. -/
structure IsPassed (text : List Char) (before after : Cursor) (token : Token) (gap : List Char) :
    Prop where
  blank : ∀ c ∈ gap, Text.isBlank c = true
  between : between text before after = gap ++ token.text.toList
  place : token.place = Place.start.after (text.take before.position ++ gap)

/-- Reading goes no further than to this character, however often it is tried: it is no blank, and
no word begins at it. -/
structure StuckAt (text : List Char) (cursor : Cursor) (stray : StrayCharacter) : Prop where
  position : stray.position = cursor.position
  place : stray.place = cursor.place
  char : text[cursor.position]? = some stray.char
  visible : Text.isBlank stray.char = false
  noWord : ∀ word, word <+: text.drop cursor.position →
    ¬ Word.IsIdentifier word ∧ ¬ Word.IsNumber word ∧ ¬ Word.IsMark word
  again : cursor.perform .readToken = (.error (.stray stray), cursor)

theorem isPassed_of_read (stands : before.StandsIn text) {token : Token}
    (read : before.read = .token token after) :
    ∃ gap, Passes text before after (gap ++ token.text.toList) ∧
      IsPassed text before after token gap ∧ token.kind ≠ .endOfInput ∧ token.text.toList ≠ [] := by
  obtain ⟨whole, placed⟩ := standsIn_iff.mp stands
  obtain ⟨gap, rest, split, blank, found⟩ := exists_word_of_read read
  have front : gap ++ token.text.toList <+: before.ahead := by
    rw [split, ← List.append_assoc]
    exact List.prefix_append _ rest
  have passes := stands.passes front
  obtain ⟨behind, ahead, place⟩ := before
  obtain rfl : ahead = gap ++ (token.text.toList ++ rest) := split
  rw [read_gap_word behind place blank found] at read
  obtain ⟨same, moved⟩ := Reading.token.inj read
  have reached : after = past ⟨behind, gap ++ (token.text.toList ++ rest), place⟩
      (gap ++ token.text.toList) := by
    rw [← moved]
    simp [past]
  have place : token.place = Place.start.after (behind.reverse ++ gap) := by
    rw [← same, Place.after_append, ← placed]
  rw [← reached] at passes
  rw [← (take_position whole).1] at place
  exact ⟨gap, passes, ⟨blank, passes.between, place⟩,
    (Word.munches_of_first? found).kind_ne_endOfInput, Word.ne_nil_of_first? found⟩

theorem passes_of_read_finished (stands : before.StandsIn text)
    (read : before.read = .finished after) :
    (∃ gap, (∀ c ∈ gap, Text.isBlank c = true) ∧ Passes text before after gap) ∧
      after.position = text.length := by
  obtain ⟨gap, blank, passes⟩ := skipBlanks_passes stands
  unfold Cursor.read at read
  simp only at read
  split at read
  · rename_i ended
    obtain rfl := Reading.finished.inj read
    refine ⟨⟨gap, blank, passes⟩, ?_⟩
    have whole := passes.stands.whole
    rw [ended, List.append_nil] at whole
    rw [whole, List.length_reverse]
    rfl
  · split at read <;> simp at read

/-- Where no token begins, reading has only moved over blanks, and it does not move again. -/
theorem stuckAt_of_read (stands : before.StandsIn text) {stray : StrayCharacter}
    (read : before.read = .stuck stray after) :
    (∃ gap, (∀ c ∈ gap, Text.isBlank c = true) ∧ Passes text before after gap) ∧
      StuckAt text after stray := by
  obtain ⟨gap, blank, passes⟩ := skipBlanks_passes stands
  have same := read
  unfold Cursor.read at read
  simp only at read
  split at read
  · simp at read
  · rename_i c rest front
    split at read
    · simp at read
    · rename_i noWord
      obtain ⟨rfl, rfl⟩ := Reading.stuck.inj read
      have ahead := (take_position passes.stands.whole).2
      refine ⟨⟨gap, blank, passes⟩, rfl, rfl, ?_, visible_of_skipBlanks front, ?_, ?_⟩
      · rw [← List.head?_drop, ahead, front]
        rfl
      · rw [ahead]
        exact Word.first?_eq_none_iff.mp noWord
      · have stays : before.skipBlanks.read = before.read := by
          rw [Cursor.read, Cursor.read, skipBlanks_skipBlanks]
        rw [perform, nextToken, stays, same]

theorem readAll_passes (stands : cursor.StandsIn text) :
    (∃ passed, Passes text cursor cursor.readAll.2 passed) ∧
      (∀ tokens, cursor.readAll.1 = .ok tokens → cursor.readAll.2.position = text.length) ∧
      ∀ stray, cursor.readAll.1 = .error stray → StuckAt text cursor.readAll.2 stray := by
  fun_induction readAll cursor with
  | case1 cursor after finished =>
    obtain ⟨⟨gap, _, passed⟩, ended⟩ := passes_of_read_finished stands finished
    exact ⟨⟨gap, passed⟩, fun _ _ => ended, fun _ same => by cases same⟩
  | case2 cursor stray after stuck =>
    obtain ⟨⟨gap, _, passed⟩, stuckAt⟩ := stuckAt_of_read stands stuck
    refine ⟨⟨gap, passed⟩, fun _ same => (by cases same), fun other same => ?_⟩
    obtain rfl := Except.error.inj same
    exact stuckAt
  | case3 cursor token after found tokens last reads ih =>
    obtain ⟨gap, early, _⟩ := isPassed_of_read stands found
    rw [reads] at ih
    obtain ⟨⟨passed, late⟩, ended, _⟩ := ih early.stands
    exact ⟨⟨_, early.trans stands late⟩, fun _ _ => ended tokens rfl,
      fun _ same => by cases same⟩
  | case4 cursor token after found stray last reads ih =>
    obtain ⟨gap, early, _⟩ := isPassed_of_read stands found
    rw [reads] at ih
    obtain ⟨⟨passed, late⟩, _, stuck⟩ := ih early.stands
    exact ⟨⟨_, early.trans stands late⟩, fun _ same => (by cases same), stuck⟩

theorem exists_layout_between (stands : cursor.StandsIn text) {tokens : List Token}
    (all : cursor.readAll.1 = .ok tokens) :
    ∃ pieces last, tokens = pieces.map Piece.token ∧
      Layout (text.take cursor.position) (between text cursor cursor.readAll.2) pieces last := by
  obtain ⟨whole, placed⟩ := standsIn_iff.mp stands
  obtain ⟨_, ended, _⟩ := readAll_passes stands
  have passed : between text cursor cursor.readAll.2 = cursor.ahead := by
    rw [between, ended tokens all, (take_position whole).2]
    refine List.take_of_length_le ?_
    rw [whole, position, List.length_append, List.length_reverse]
    omega
  rw [passed, (take_position whole).1]
  exact exists_layout_of_readAll placed all

/-! ## Requests -/

/-- Requests that only look, and those that find nothing to move over. -/
inductive Looks : Request → Except RequestError Answer → Prop where
  | peek (distance : Int) (outcome : Except RequestError Answer) : Looks (.peek distance) outcome
  | atEnd (outcome : Except RequestError Answer) : Looks .atEnd outcome
  | noMark : Looks .readMark (.ok (.token none))
  | pastEnd (fault : PastEnd) : Looks .next (.error (.pastEnd fault))

/-- What comes of reading one token: the end when all is read, a token, or a character at which no
token begins.  Only blanks are passed before it. -/
inductive ReadsToken (text : List Char) (before : Cursor) :
    Except RequestError Answer → Cursor → Prop where
  | finished {after : Cursor} (ended : after.position = text.length)
      (blank : ∀ c ∈ between text before after, Text.isBlank c = true) :
      ReadsToken text before (.ok (.token (some (.finish after.place)))) after
  | token {token : Token} {after : Cursor} (word : token.kind ≠ .endOfInput)
      (forward : before.position < after.position) :
      ReadsToken text before (.ok (.token (some token))) after
  | stuck {stray : StrayCharacter} {after : Cursor} (stuck : StuckAt text after stray)
      (blank : ∀ c ∈ between text before after, Text.isBlank c = true) :
      ReadsToken text before (.error (.stray stray)) after

structure Step (text : List Char) (before : Cursor) (request : Request)
    (outcome : Except RequestError Answer) (after : Cursor) : Prop where
  stands : after.StandsIn text
  onward : before.position ≤ after.position
  kept : Looks request outcome → after = before
  token : ∀ token, outcome = .ok (.token (some token)) → token.kind ≠ .endOfInput →
    ∃ gap, IsPassed text before after token gap ∧ (request ≠ .readToken → gap = [])
  tokens : ∀ tokens, outcome = .ok (.tokens tokens) →
    ∃ pieces last, tokens = pieces.map Piece.token ∧
      Layout (text.take before.position) (between text before after) pieces last
  reads : request = .readToken → ReadsToken text before outcome after

inductive Course (text : List Char) :
    Cursor → List Request → List (Except RequestError Answer × Cursor) → Prop where
  | done (cursor : Cursor) : Course text cursor [] []
  | step {before after : Cursor} {request : Request} {requests : List Request}
      {outcome : Except RequestError Answer}
      {outcomes : List (Except RequestError Answer × Cursor)}
      (step : Step text before request outcome after) (more : Course text after requests outcomes) :
      Course text before (request :: requests) ((outcome, after) :: outcomes)

variable {request : Request} {outcome : Except RequestError Answer} {passed : List Char}

theorem Passes.forward (passes : Passes text before after passed) :
    before.position ≤ after.position := by
  rw [passes.onward]
  omega

theorem Passes.step (passes : Passes text before after passed)
    (kept : Looks request outcome → after = before)
    (noToken : ∀ token, outcome ≠ .ok (.token (some token)))
    (noTokens : ∀ tokens, outcome ≠ .ok (.tokens tokens)) (other : request ≠ .readToken) :
    Step text before request outcome after where
  stands := passes.stands
  onward := passes.forward
  kept := kept
  token := fun token same => absurd same (noToken token)
  tokens := fun tokens same => absurd same (noTokens tokens)
  reads := fun same => absurd same other

theorem step_take (stands : before.StandsIn text) {word : List Char} (kind : Kind)
    (front : word <+: before.ahead) (noLook : ∀ token, ¬ Looks request (.ok (.token (some token))))
    (other : request ≠ .readToken) :
    Step text before request (.ok (.token (some (before.take kind word).1)))
      (before.take kind word).2 := by
  have passes := stands.passes front
  obtain ⟨whole, placed⟩ := standsIn_iff.mp stands
  exact {
    stands := passes.stands
    onward := passes.forward
    kept := fun looks => absurd looks (noLook _)
    token := by
      intro token same _
      obtain rfl : (before.take kind word).1 = token := by simpa using same
      refine ⟨[], ⟨by simp, ?_, ?_⟩, fun _ => rfl⟩
      · rw [take, passes.between]
        simp
      · rw [List.append_nil, (take_position whole).1]
        exact placed
    tokens := fun tokens same => by simp at same
    reads := fun same => absurd same other }

theorem step_nextToken (stands : before.StandsIn text) :
    Step text before .readToken (before.perform .readToken).1 (before.perform .readToken).2 := by
  rw [perform, nextToken]
  cases read : before.read with
  | token token after =>
    obtain ⟨gap, passes, isPassed, word, filled⟩ := isPassed_of_read stands read
    have forward : before.position < after.position := by
      have some_word := List.length_pos_iff.mpr filled
      rw [passes.onward, List.length_append]
      omega
    exact {
      stands := passes.stands
      onward := passes.forward
      kept := fun looks => by cases looks
      token := by
        intro other same _
        obtain rfl : token = other := by simpa using same
        exact ⟨gap, isPassed, fun other => absurd rfl other⟩
      tokens := fun tokens same => by simp at same
      reads := fun _ => .token word forward }
  | finished after =>
    obtain ⟨⟨gap, blank, passes⟩, ended⟩ := passes_of_read_finished stands read
    exact {
      stands := passes.stands
      onward := passes.forward
      kept := fun looks => by cases looks
      token := by
        intro other same word
        obtain rfl : Token.finish after.place = other := by simpa using same
        exact absurd rfl word
      tokens := fun tokens same => by simp at same
      reads := fun _ => .finished ended (passes.between ▸ blank) }
  | stuck stray after =>
    obtain ⟨⟨gap, blank, passes⟩, stuck⟩ := stuckAt_of_read stands read
    exact {
      stands := passes.stands
      onward := passes.forward
      kept := fun looks => by cases looks
      token := fun token same => by simp at same
      tokens := fun tokens same => by simp at same
      reads := fun _ => .stuck stuck (passes.between ▸ blank) }

theorem step_readAll (stands : before.StandsIn text) :
    Step text before .readAll (before.perform .readAll).1 (before.perform .readAll).2 := by
  obtain ⟨⟨passed, passes⟩, _, _⟩ := readAll_passes stands
  have layout := @exists_layout_between text before stands
  rw [perform]
  cases reads : before.readAll with
  | mk outcome after =>
    rw [reads] at passes layout
    cases outcome with
    | ok tokens =>
      exact {
        stands := passes.stands
        onward := passes.forward
        kept := fun looks => by cases looks
        token := fun token same => by simp at same
        tokens := by
          intro others same
          obtain rfl : tokens = others := by simpa using same
          exact layout rfl
        reads := fun same => by cases same }
    | error stray => exact passes.step (fun looks => by cases looks) (by simp) (by simp) (by simp)

theorem perform_step (stands : before.StandsIn text) (request : Request) :
    Step text before request (before.perform request).1 (before.perform request).2 := by
  cases request with
  | next =>
    rw [perform, next]
    cases ahead : before.ahead with
    | nil => exact stands.stays.step (fun _ => rfl) (by simp) (by simp) (by simp)
    | cons c rest =>
      have front : [c] <+: before.ahead := ahead ▸ Word.singleton_begins c rest
      exact (stands.passes front).step (fun looks => by cases looks) (by simp) (by simp) (by simp)
  | peek distance =>
    exact stands.stays.step (fun _ => rfl) (by simp [perform]) (by simp [perform]) (by simp)
  | atEnd =>
    exact stands.stays.step (fun _ => rfl) (by simp [perform]) (by simp [perform]) (by simp)
  | skipBlanks =>
    obtain ⟨gap, _, passes⟩ := skipBlanks_passes stands
    exact passes.step (fun looks => by cases looks) (by simp [perform]) (by simp [perform])
      (by simp)
  | readMark =>
    rw [perform, readMark]
    cases found : Word.mark before.ahead with
    | none => exact stands.stays.step (fun _ => rfl) (by simp) (by simp) (by simp)
    | some mark =>
      obtain ⟨kind, word⟩ := mark
      have front := (Word.isLongest_mark found).1.front
      exact step_take stands kind front (fun _ looks => by cases looks) (by simp)
  | readName =>
    exact step_take stands _ (List.takeWhile_prefix _) (fun _ looks => by cases looks) (by simp)
  | readNumber =>
    exact step_take stands _ (Word.number_prefix _) (fun _ looks => by cases looks) (by simp)
  | readToken => exact step_nextToken stands
  | readAll => exact step_readAll stands

theorem performAll_course (stands : cursor.StandsIn text) (requests : List Request) :
    Course text cursor requests (cursor.performAll requests) := by
  induction requests generalizing cursor with
  | nil => exact .done cursor
  | cons request requests ih =>
    have step := perform_step stands request
    exact .step step (ih step.stands)

/-- Any requests to a cursor that begins at the front of a text, in any order, leave it where its
counters say, and never move it back. -/
theorem performAll_keeps_to_text (text : String) (requests : List Request) :
    (ofText text).StandsIn text.toList ∧
      Course text.toList (ofText text) requests ((ofText text).performAll requests) :=
  ⟨ofText_standsIn text, performAll_course (ofText_standsIn text) requests⟩

end Funlet.Cursor
