import Funlet.Proofs.Data.Documents
import Funlet.Proofs.Number.Digits
import Mathlib.Data.List.Chain

/-!
# Strings in JSON text

A string is written in ASCII, and what is between its quotation marks is read back as its code
points, with surrogates joined that stand side by side: a code point above U+FFFF is written as two
surrogates, as is the text that holds these two.
-/

set_option autoImplicit false

namespace Funlet

namespace Json

/-! ## Hexadecimal digits -/

theorem hexDigit?_symbol {digit : Nat} (small : digit < 16) :
    hexDigit? (Digits.symbol digit) = some digit := by
  revert digit
  decide

theorem toNat_symbol_lt {digit : Nat} (small : digit < 16) :
    (Digits.symbol digit).toNat < 128 := by
  revert digit
  decide

theorem hexValueFrom?_append (total : Nat) (first second : List Char) :
    hexValueFrom? total (first ++ second) =
      (hexValueFrom? total first).bind fun value => hexValueFrom? value second := by
  induction first generalizing total with
  | nil => rfl
  | cons c rest ih =>
    rw [List.cons_append, hexValueFrom?, hexValueFrom?]
    cases hexDigit? c with
    | none => rfl
    | some digit => exact ih (total * 16 + digit)

theorem hexValueFrom?_zeros (count : Nat) :
    hexValueFrom? 0 (List.replicate count '0') = some 0 := by
  induction count with
  | zero => rfl
  | succ count ih => rwa [List.replicate_succ, hexValueFrom?]

theorem hexValueFrom?_ofNat (n : Nat) : hexValueFrom? 0 (Digits.ofNat 16 n) = some n := by
  induction n using Nat.strongRecOn with
  | ind n ih =>
    rw [Digits.ofNat]
    split
    · have digit := hexDigit?_symbol (Nat.mod_lt n (by decide : 0 < 16))
      rw [hexValueFrom?_append, ih (n / 16) (by omega), Option.bind_some, hexValueFrom?, digit]
      exact congrArg some (by omega)
    · rename_i small
      have digit := hexDigit?_symbol (show n < 16 by omega)
      rw [hexValueFrom?, digit]
      exact congrArg some (by omega)

theorem hexValueFrom?_hex (width n : Nat) : hexValueFrom? 0 (Digits.hex width n) = some n := by
  rw [Digits.hex, hexValueFrom?_append, hexValueFrom?_zeros]
  exact hexValueFrom?_ofNat n

theorem toNat_lt_of_mem_ofNat {n : Nat} {c : Char} (member : c ∈ Digits.ofNat 16 n) :
    c.toNat < 128 := by
  induction n using Nat.strongRecOn with
  | ind n ih =>
    rw [Digits.ofNat] at member
    split at member
    · rcases List.mem_append.mp member with before | last
      · exact ih (n / 16) (by omega) before
      · rw [List.mem_singleton.mp last]
        exact toNat_symbol_lt (by omega)
    · rw [List.mem_singleton.mp member]
      exact toNat_symbol_lt (by omega)

theorem toNat_lt_of_mem_unitEscape {unit : Nat} {c : Char} (member : c ∈ unitEscape unit) :
    c.toNat < 128 := by
  rcases List.mem_cons.mp member with rfl | member
  · decide
  · rcases List.mem_cons.mp member with rfl | member
    · decide
    · rcases List.mem_append.mp member with zero | digit
      · rw [List.eq_of_mem_replicate zero]
        decide
      · exact toNat_lt_of_mem_ofNat digit

theorem exists_hex_eq {unit : Nat} (small : unit < 0x10000) :
    ∃ a b c d, Digits.hex 4 unit = [a, b, c, d] := by
  have places : (Digits.ofNat 16 unit).length ≤ 4 := Digits.length_ofNat_le (by decide) small
  have length : (Digits.hex 4 unit).length = 4 := by
    simp only [Digits.hex, List.length_append, List.length_replicate]
    omega
  exact List.length_eq_four.mp length

/-! ## Surrogates -/

end Json

namespace CodePoints

/-- No high surrogate stands right before a low one. -/
def PairFree (text : CodePoints) : Prop :=
  text.IsChain fun first second => ¬ (IsHigh first ∧ IsLow second)

instance : DecidablePred PairFree := fun text => inferInstanceAs (Decidable (text.IsChain _))

theorem joined_cons {point : Fin 0x110000} {rest : CodePoints}
    (apart : ∀ next ∈ rest.head?, ¬ (IsHigh point ∧ IsLow next)) :
    joined (point :: rest) = point :: joined rest := by
  cases rest with
  | nil => rfl
  | cons next more => rw [joined, dif_neg (apart next rfl)]

theorem length_joined_le (text : CodePoints) : (joined text).length ≤ text.length := by
  fun_induction joined text with
  | case1 high low rest pairs ih => simp only [List.length_cons]; omega
  | case2 high low rest apart ih => simpa using ih
  | case3 text => exact Nat.le_refl _

theorem joined_eq_self_iff {text : CodePoints} : joined text = text ↔ text.PairFree := by
  fun_induction joined text with
  | case1 high low rest pairs ih =>
    have shorter := length_joined_le rest
    refine ⟨fun same => ?_, fun free => ?_⟩
    · have := congrArg List.length same
      simp only [List.length_cons] at this
      omega
    · exact absurd pairs (List.isChain_cons_cons.mp free).1
  | case2 high low rest apart ih =>
    rw [PairFree, List.isChain_cons_cons, List.cons.injEq]
    exact ⟨fun same => ⟨apart, ih.mp same.2⟩, fun free => ⟨rfl, ih.mpr free.2⟩⟩
  | case3 text other =>
    refine iff_of_true rfl ?_
    cases text with
    | nil => exact .nil
    | cons point rest =>
      cases rest with
      | nil => exact .singleton point
      | cons next more => exact absurd rfl (other point next more)

theorem pairFree_ofString (text : String) : PairFree (Wording.ofString text) := by
  have notLow (c : Char) : ¬ IsLow (ofChar c) := by
    rintro ⟨above, below⟩
    simp only [ofChar] at above below
    rcases c.valid with small | large
    · exact Nat.not_lt.mpr above (Nat.lt_trans small (by decide))
    · exact Nat.not_lt.mpr (Nat.le_of_lt_succ below) large.1
  have apart : text.toList.Pairwise fun c d => ¬ (IsHigh (ofChar c) ∧ IsLow (ofChar d)) :=
    List.pairwise_of_forall fun _ d pair => notLow d pair.2
  exact (List.isChain_map ofChar).mpr apart.isChain

end CodePoints

namespace Json

open CodePoints

/-! ## Reading back -/

/-- The code points that a code point is written as: above U+FFFF two surrogates, else itself. -/
def units (point : Fin 0x110000) : CodePoints :=
  if point.val < 0x10000 then [point]
  else
    [⟨0xd800 + (point.val - 0x10000) / 0x400, by omega⟩,
      ⟨0xdc00 + (point.val - 0x10000) % 0x400, by omega⟩]

theorem readPoints?_unitEscape (unit : Fin 0x110000) (small : unit.val < 0x10000)
    (rest : List Char) :
    readPoints? (unitEscape unit.val ++ rest) = (readPoints? rest).map (pointBefore unit) := by
  obtain ⟨a, b, c, d, digits⟩ := exists_hex_eq small
  have value := hexValueFrom?_hex 4 unit.val
  rw [digits] at value
  simp only [unitEscape, digits, List.cons_append, List.nil_append, readPoints?, value,
    Option.bind_eq_bind, Option.bind_some, dif_pos unit.isLt]

theorem readPoints?_letter {letter c : Char} (stands : escaped? letter = some c)
    (rest : List Char) :
    readPoints? ('\\' :: letter :: rest) = (readPoints? rest).map (pointBefore (ofChar c)) := by
  have notNumbered : letter ≠ 'u' := by
    rintro rfl
    simp [escaped?] at stands
  rw [readPoints?, stands]
  · rfl
  · exact fun _ _ _ _ _ numbered _ => notNumbered numbered

theorem readPoints?_plain {c : Char} (visible : 32 ≤ c.toNat) (notQuote : c ≠ '"')
    (notBackslash : c ≠ '\\') (rest : List Char) :
    readPoints? (c :: rest) = (readPoints? rest).map (pointBefore (ofChar c)) := by
  rw [readPoints?, if_neg]
  · rintro (backslash | control)
    · exact notBackslash backslash
    · omega
  · exact notQuote
  · exact fun _ _ _ _ _ backslash _ => notBackslash backslash
  · exact fun _ _ backslash _ => notBackslash backslash

def unitsBefore (point : Fin 0x110000) (read : CodePoints × List Char) :
    CodePoints × List Char :=
  (units point ++ read.1, read.2)

theorem unitsBefore_of_small {point : Fin 0x110000} (small : point.val < 0x10000) :
    unitsBefore point = pointBefore point := by
  funext read
  rw [unitsBefore, units, if_pos small]
  rfl

/-- Behind the text of a code point this one has been read, or its surrogates. -/
theorem readPoints?_escapedCode (point : Fin 0x110000) (rest : List Char) :
    readPoints? (escapedCode point.val ++ rest) = (readPoints? rest).map (unitsBefore point) := by
  have byLetter {letter : Char} (small : point.val < 0xd800)
      (stands : escaped? letter = some (Char.ofNat point.val)) :
      readPoints? (['\\', letter] ++ rest) = (readPoints? rest).map (unitsBefore point) := by
    have read := readPoints?_letter stands rest
    rw [ofChar_ofNat (.inl small)] at read
    rw [unitsBefore_of_small (by omega)]
    exact read
  unfold escapedCode
  split_ifs with quoted newline carriage tab backspace feed visible basic
  · rcases quoted with quote | backslash
    · exact byLetter (by omega) (by rw [quote]; rfl)
    · exact byLetter (by omega) (by rw [backslash]; rfl)
  · exact byLetter (by omega) (by rw [newline]; rfl)
  · exact byLetter (by omega) (by rw [carriage]; rfl)
  · exact byLetter (by omega) (by rw [tab]; rfl)
  · exact byLetter (by omega) (by rw [backspace]; rfl)
  · exact byLetter (by omega) (by rw [feed]; rfl)
  · have code : (Char.ofNat point.val).toNat = point.val :=
      congrArg Fin.val (ofChar_ofNat (.inl (by omega : point.val < 0xd800)))
    have differs {c : Char} (other : point.val ≠ c.toNat) : Char.ofNat point.val ≠ c := by
      rintro rfl
      exact other code.symm
    have read := readPoints?_plain (c := Char.ofNat point.val) (by omega)
      (differs fun quote => quoted (.inl quote)) (differs fun slash => quoted (.inr slash)) rest
    rw [ofChar_ofNat (.inl (by omega))] at read
    rw [unitsBefore_of_small (by omega)]
    exact read
  · rw [unitsBefore_of_small basic]
    exact readPoints?_unitEscape point basic rest
  · have bound := point.isLt
    have low := readPoints?_unitEscape ⟨0xdc00 + (point.val - 0x10000) % 0x400, by omega⟩
      (by dsimp only; omega) rest
    have high := readPoints?_unitEscape ⟨0xd800 + (point.val - 0x10000) / 0x400, by omega⟩
      (by dsimp only; omega) (unitEscape (0xdc00 + (point.val - 0x10000) % 0x400) ++ rest)
    rw [List.append_assoc, high, low, Option.map_map]
    congr 1
    funext read
    rw [unitsBefore, units, if_neg basic]
    rfl

theorem readPoints?_flatMap (text : CodePoints) (behind : List Char) :
    readPoints? ((text.map Fin.val).flatMap escapedCode ++ '"' :: behind) =
      some (text.flatMap units, behind) := by
  induction text with
  | nil => rfl
  | cons point rest ih =>
    rw [List.map_cons, List.flatMap_cons, List.append_assoc, readPoints?_escapedCode, ih]
    rfl

theorem joined_units_of_large {point : Fin 0x110000} (large : ¬ point.val < 0x10000)
    (rest : CodePoints) : joined (units point ++ rest) = point :: joined rest := by
  have bound := point.isLt
  have isHigh : IsHigh ⟨0xd800 + (point.val - 0x10000) / 0x400, by omega⟩ := by
    constructor <;> dsimp only <;> omega
  have isLow : IsLow ⟨0xdc00 + (point.val - 0x10000) % 0x400, by omega⟩ := by
    constructor <;> dsimp only <;> omega
  have same : pair _ _ isHigh isLow = point := by
    refine Fin.ext ?_
    simp only [val_pair]
    omega
  rw [units, if_neg large, List.cons_append, List.cons_append, List.nil_append, joined,
    dif_pos ⟨isHigh, isLow⟩, same]

theorem eq_of_isLow_head {point first : Fin 0x110000} {rest : CodePoints}
    (head : (units point ++ rest).head? = some first) (isLow : IsLow first) : first = point := by
  rw [units] at head
  split_ifs at head with small
  · exact (Option.some.inj head).symm
  · have bound := point.isLt
    obtain rfl := Option.some.inj head
    simp only [IsLow] at isLow
    omega

/-- The surrogates of code points above U+FFFF are joined again. -/
theorem joined_flatMap_units (text : CodePoints) : joined (text.flatMap units) = joined text := by
  have alone (point : Fin 0x110000) : joined (units point ++ []) = [point] := by
    by_cases small : point.val < 0x10000
    · rw [units, if_pos small]
      rfl
    · rw [joined_units_of_large small]
      rfl
  fun_induction joined text with
  | case1 high low rest pairs ih =>
    obtain ⟨isHigh, isLow⟩ := pairs
    rw [List.flatMap_cons, List.flatMap_cons, units, units, if_pos (by omega), if_pos (by omega),
      List.singleton_append, List.singleton_append, joined, dif_pos ⟨isHigh, isLow⟩, ih]
  | case2 high low rest apart ih =>
    rw [List.flatMap_cons]
    by_cases small : high.val < 0x10000
    · rw [units, if_pos small, List.singleton_append, joined_cons, ih]
      rintro next head ⟨isHigh, isLow⟩
      rw [List.flatMap_cons] at head
      obtain rfl := eq_of_isLow_head head isLow
      exact apart ⟨isHigh, isLow⟩
    · rw [joined_units_of_large small, ih]
  | case3 text other =>
    cases text with
    | nil => rfl
    | cons point rest =>
      cases rest with
      | nil => exact alone point
      | cons next more => exact absurd rfl (other point next more)

/-- What stands between quotation marks is read back, with surrogates joined. -/
theorem readString?_escaped (text : CodePoints) (behind : List Char) :
    readString? ((text.map Fin.val).flatMap escapedCode ++ '"' :: behind) =
      some (joined text, behind) := by
  rw [readString?, readPoints?_flatMap, Option.map_some, joined_flatMap_units]

theorem escapedCode_of_surrogate {code : Nat} (above : 0xd800 ≤ code) (below : code < 0xe000) :
    escapedCode code = unitEscape code := by
  unfold escapedCode
  split_ifs <;> first | omega | rfl

theorem escapedCode_pair {high low : Fin 0x110000} (isHigh : IsHigh high) (isLow : IsLow low) :
    escapedCode (pair high low isHigh isLow).val = escapedCode high.val ++ escapedCode low.val := by
  rw [escapedCode_of_surrogate isHigh.1 (by omega), escapedCode_of_surrogate (by omega) isLow.2]
  have highUnit : 0xd800 + ((pair high low isHigh isLow).val - 0x10000) / 0x400 = high.val := by
    simp only [val_pair]
    omega
  have lowUnit : 0xdc00 + ((pair high low isHigh isLow).val - 0x10000) % 0x400 = low.val := by
    simp only [val_pair]
    omega
  have large : 0x10000 ≤ (pair high low isHigh isLow).val := by
    simp only [val_pair]
    omega
  unfold escapedCode
  split_ifs <;> first | omega | rw [highUnit, lowUnit]

/-- Surrogates that stand side by side are written like the code point that they stand for. -/
theorem string_joined (text : CodePoints) : string (joined text) = string text := by
  have same : ((joined text).map Fin.val).flatMap escapedCode =
      (text.map Fin.val).flatMap escapedCode := by
    fun_induction joined text with
    | case1 high low rest pairs ih =>
      simp only [List.map_cons, List.flatMap_cons, escapedCode_pair, ih, List.append_assoc]
    | case2 high low rest apart ih =>
      rw [List.map_cons, List.flatMap_cons, ih, ← List.flatMap_cons, ← List.map_cons]
    | case3 text other => rfl
  exact congrArg (fun escaped => String.ofList ('"' :: escaped ++ ['"'])) same

theorem toNat_lt_of_mem_escapedCode {code : Nat} {c : Char} (member : c ∈ escapedCode code) :
    c.toNat < 128 := by
  have ofNat {small : Nat} (ascii : small < 128) : (Char.ofNat small).toNat < 128 := by
    revert small
    decide
  have ofLetter {letter : Char} (ascii : letter.toNat < 128) (escape : c ∈ ['\\', letter]) :
      c.toNat < 128 := by
    rcases List.mem_cons.mp escape with rfl | last
    · decide
    · rwa [List.mem_singleton.mp last]
  unfold escapedCode at member
  split_ifs at member with quoted newline carriage tab backspace feed visible basic
  · exact ofLetter (ofNat (by omega)) member
  · exact ofLetter (by decide) member
  · exact ofLetter (by decide) member
  · exact ofLetter (by decide) member
  · exact ofLetter (by decide) member
  · exact ofLetter (by decide) member
  · rw [List.mem_singleton.mp member]
    exact ofNat (by omega)
  · exact toNat_lt_of_mem_unitEscape member
  · rcases List.mem_append.mp member with high | low
    · exact toNat_lt_of_mem_unitEscape high
    · exact toNat_lt_of_mem_unitEscape low

theorem toNat_lt_of_mem_string {Text : Type} [Wording Text] {text : Text} {c : Char}
    (member : c ∈ (string text).toList) : c.toNat < 128 := by
  simp only [string, String.toList_ofList, List.cons_append, List.mem_cons, List.mem_append,
    List.mem_flatMap, List.not_mem_nil, or_false] at member
  rcases member with rfl | ⟨_, _, escaped⟩ | rfl
  · decide
  · exact toNat_lt_of_mem_escapedCode escaped
  · decide

end Json

end Funlet
