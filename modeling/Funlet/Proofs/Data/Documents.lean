import Funlet.Data.Json

/-!
# Reading JSON documents

What a JSON text says, after RFC 8259.  The text is cut into symbols, which are the structural
characters and the scalars, and blanks between them are passed over; the symbols are then put
together.  A string is read as code points: a high surrogate and a low one behind it are one code
point, and a surrogate without the other stands for itself.  A number is an integer if it has
neither a point nor an exponent, and members keep the order of the text.
-/

set_option autoImplicit false

namespace Funlet

/-! ## Strings -/

namespace CodePoints

abbrev IsHigh (point : Fin 0x110000) : Prop := 0xd800 ≤ point.val ∧ point.val < 0xdc00

abbrev IsLow (point : Fin 0x110000) : Prop := 0xdc00 ≤ point.val ∧ point.val < 0xe000

/-- The code point above U+FFFF that two surrogates stand for. -/
def pair (high low : Fin 0x110000) (isHigh : IsHigh high) (isLow : IsLow low) : Fin 0x110000 :=
  ⟨0x10000 + (high.val - 0xd800) * 0x400 + (low.val - 0xdc00), by omega⟩

theorem val_pair {high low : Fin 0x110000} (isHigh : IsHigh high) (isLow : IsLow low) :
    (pair high low isHigh isLow).val =
      0x10000 + (high.val - 0xd800) * 0x400 + (low.val - 0xdc00) := rfl

/-- A text with every high surrogate joined to a low one right behind it. -/
def joined : CodePoints → CodePoints
  | high :: low :: rest =>
    if pairs : IsHigh high ∧ IsLow low then pair high low pairs.1 pairs.2 :: joined rest
    else high :: joined (low :: rest)
  | text => text

end CodePoints

namespace Json

abbrev Document := Data CodePoints

def hexDigit? (c : Char) : Option Nat :=
  if c.isDigit then some (c.toNat - 48)
  else if 97 ≤ c.toNat ∧ c.toNat ≤ 102 then some (c.toNat - 87)
  else if 65 ≤ c.toNat ∧ c.toNat ≤ 70 then some (c.toNat - 55)
  else none

/-- The number that hexadecimal digits denote, the digits before them having denoted `total`. -/
def hexValueFrom? (total : Nat) : List Char → Option Nat
  | [] => some total
  | c :: rest =>
    match hexDigit? c with
    | some digit => hexValueFrom? (total * 16 + digit) rest
    | none => none

def escaped? : Char → Option Char
  | '"' => some '"'
  | '\\' => some '\\'
  | '/' => some '/'
  | 'b' => some (Char.ofNat 8)
  | 'f' => some (Char.ofNat 12)
  | 'n' => some '\n'
  | 'r' => some '\r'
  | 't' => some '\t'
  | _ => none

def pointBefore (point : Fin 0x110000) (read : CodePoints × List Char) : CodePoints × List Char :=
  (point :: read.1, read.2)

/-- The code points in a string up to its closing quotation mark, and the text behind it.  One that
was written by its number is perhaps a surrogate. -/
def readPoints? : List Char → Option (CodePoints × List Char)
  | [] => none
  | '"' :: rest => some ([], rest)
  | '\\' :: 'u' :: a :: b :: c :: d :: rest => do
    let code ← hexValueFrom? 0 [a, b, c, d]
    if valid : code < 0x110000 then (readPoints? rest).map (pointBefore ⟨code, valid⟩) else none
  | '\\' :: letter :: rest => do
    let c ← escaped? letter
    (readPoints? rest).map (pointBefore (CodePoints.ofChar c))
  | c :: rest =>
    if c = '\\' ∨ c.toNat < 32 then none
    else (readPoints? rest).map (pointBefore (CodePoints.ofChar c))

def readString? (text : List Char) : Option (CodePoints × List Char) :=
  (readPoints? text).map fun read => (CodePoints.joined read.1, read.2)

/-! ## Other scalars -/

def pastFraction? : List Char → Option (List Char)
  | '.' :: rest =>
    if (rest.takeWhile Char.isDigit).isEmpty then none else some (rest.dropWhile Char.isDigit)
  | rest => some rest

def isFractional (text : List Char) : Bool :=
  match pastFraction? text with
  | some rest => (Numeral.exponentOf? rest).isSome
  | none => false

def withoutMinus : List Char → List Char
  | '-' :: rest => rest
  | text => text

def readNumber? (word : List Char) : Option Document :=
  let whole := (withoutMinus word).takeWhile Char.isDigit
  let rest := (withoutMinus word).dropWhile Char.isDigit
  if whole.isEmpty || (whole.head? == some '0' && whole.length != 1) then none
  else if rest.isEmpty then (Numeral.readInteger? (String.ofList word)).map .int
  else if isFractional rest then (Numeral.readReal? (String.ofList word)).map .float
  else none

def readWord? (word : List Char) : Option Document :=
  if word = ['n', 'u', 'l', 'l'] then some .null
  else if word = ['t', 'r', 'u', 'e'] then some (.bool true)
  else if word = ['f', 'a', 'l', 's', 'e'] then some (.bool false)
  else readNumber? word

/-! ## Symbols -/

inductive Symbol where
  | beginList
  | endList
  | beginMap
  | endMap
  | colon
  | comma
  | scalar (value : Document)

def structural? : Char → Option Symbol
  | '[' => some .beginList
  | ']' => some .endList
  | '\x7b' => some .beginMap
  | '\x7d' => some .endMap
  | ':' => some .colon
  | ',' => some .comma
  | _ => none

def isSpace (c : Char) : Bool :=
  c == ' ' || c == '\t' || c == '\n' || c == '\r'

def isWordChar (c : Char) : Bool :=
  c.isDigit || c.isAlpha || c == '-' || c == '+' || c == '.'

theorem length_of_readPoints? {text behind : List Char} {points : CodePoints}
    (read : readPoints? text = some (points, behind)) : behind.length < text.length := by
  fun_induction readPoints? text generalizing points with
  | case1 => simp at read
  | case2 rest =>
    obtain ⟨_, rfl⟩ := Prod.mk.inj (Option.some.inj read)
    simp
  | case3 a b c d rest ih =>
    obtain ⟨code, _, read⟩ := Option.bind_eq_some_iff.mp read
    split at read
    · obtain ⟨more, others, same⟩ := Option.map_eq_some_iff.mp read
      obtain ⟨_, rfl⟩ := Prod.mk.inj same
      have := ih others
      simp only [List.length_cons]
      omega
    · simp at read
  | case4 letter rest _ ih =>
    obtain ⟨_, _, read⟩ := Option.bind_eq_some_iff.mp read
    obtain ⟨more, others, same⟩ := Option.map_eq_some_iff.mp read
    obtain ⟨_, rfl⟩ := Prod.mk.inj same
    have := ih others
    simp only [List.length_cons]
    omega
  | case5 => simp at read
  | case6 c rest _ _ _ _ ih =>
    obtain ⟨more, others, same⟩ := Option.map_eq_some_iff.mp read
    obtain ⟨_, rfl⟩ := Prod.mk.inj same
    have := ih others
    simp only [List.length_cons]
    omega

theorem length_of_readString? {text behind : List Char} {value : CodePoints}
    (read : readString? text = some (value, behind)) : behind.length < text.length := by
  obtain ⟨⟨points, rest⟩, readPoints, same⟩ := Option.map_eq_some_iff.mp read
  obtain ⟨_, rfl⟩ := Prod.mk.inj same
  exact length_of_readPoints? readPoints

def symbols? : List Char → Option (List Symbol)
  | [] => some []
  | c :: rest =>
    if isSpace c then symbols? rest
    else
      match structural? c with
      | some symbol => (symbols? rest).map (symbol :: ·)
      | none =>
        if c = '"' then
          match _read : readString? rest with
          | some (value, behind) => (symbols? behind).map (.scalar (.text value) :: ·)
          | none => none
        else if isWordChar c then do
          let value ← readWord? (c :: rest.takeWhile isWordChar)
          (symbols? (rest.dropWhile isWordChar)).map (.scalar value :: ·)
        else none
termination_by text => text.length
decreasing_by
  · simp
  · simp
  · have := length_of_readString? _read
    simp only [List.length_cons]
    omega
  · have := (List.dropWhile_suffix (l := rest) isWordChar).length_le
    simp only [List.length_cons]
    omega

/-! ## Documents -/

mutual

/-- Reads one value.  Each step reads a symbol, so their number is fuel enough. -/
def readValue? : (fuel : Nat) → List Symbol → Option (Document × List Symbol)
  | 0, _ => none
  | _ + 1, .scalar value :: rest => some (value, rest)
  | _ + 1, .beginList :: .endList :: rest => some (.list [], rest)
  | fuel + 1, .beginList :: rest =>
    (readItems? fuel rest).map fun read => (.list read.1, read.2)
  | _ + 1, .beginMap :: .endMap :: rest => some (.map [], rest)
  | fuel + 1, .beginMap :: rest =>
    (readEntries? fuel rest).map fun read => (.map read.1, read.2)
  | _ + 1, _ => none

def readItems? : (fuel : Nat) → List Symbol → Option (List Document × List Symbol)
  | 0, _ => none
  | fuel + 1, symbols =>
    match readValue? fuel symbols with
    | some (item, .endList :: rest) => some ([item], rest)
    | some (item, .comma :: rest) =>
      (readItems? fuel rest).map fun read => (item :: read.1, read.2)
    | _ => none

def readEntries? :
    (fuel : Nat) → List Symbol → Option (List (CodePoints × Document) × List Symbol)
  | fuel + 1, .scalar (.text key) :: .colon :: symbols =>
    match readValue? fuel symbols with
    | some (value, .endMap :: rest) => some ([(key, value)], rest)
    | some (value, .comma :: rest) =>
      (readEntries? fuel rest).map fun read => ((key, value) :: read.1, read.2)
    | _ => none
  | _, _ => none

end

def decode? (text : String) : Option Document :=
  match symbols? text.toList with
  | none => none
  | some symbols =>
    match readValue? symbols.length symbols with
    | some (value, []) => some value
    | _ => none

end Json

end Funlet
