import Funlet.Number.Digits

/-!
# Reading bytes as UTF-8 text

A text is decoded sequence by sequence.  Where the bytes are not well formed, the fault covers
the longest run of bytes that could begin a well-formed sequence, as the Unicode standard
recommends, and decoding stops there.
-/

set_option autoImplicit false

namespace Funlet.Text

inductive Utf8Cause where
  | invalidStart
  | invalidContinuation
  | unexpectedEnd
  deriving DecidableEq

structure Utf8Fault where
  position : Nat
  bytes : List Nat
  cause : Utf8Cause
  deriving DecidableEq

def Utf8Cause.message : Utf8Cause → String
  | .invalidStart => "invalid start byte"
  | .invalidContinuation => "invalid continuation byte"
  | .unexpectedEnd => "unexpected end of data"

def Utf8Fault.message (fault : Utf8Fault) : String :=
  let place :=
    match fault.bytes with
    | [byte] =>
      "byte 0x" ++ String.ofList (Digits.hex 2 byte) ++ " in position " ++
        Digits.decimal fault.position
    | bytes =>
      "bytes in position " ++ Digits.decimal fault.position ++ "-" ++
        Digits.decimal (fault.position + bytes.length - 1)
  "'utf-8' codec can't decode " ++ place ++ ": " ++ fault.cause.message

/-- What a first byte announces: the bits it holds, and the least and the greatest second byte
followed by the number of further bytes. -/
def sequenceOf (first : Nat) : Option (Nat × Nat × Nat × Nat) :=
  if first < 0xc2 then none
  else if first < 0xe0 then some (first - 0xc0, 0x80, 0xbf, 0)
  else if first = 0xe0 then some (0, 0xa0, 0xbf, 1)
  else if first = 0xed then some (0xd, 0x80, 0x9f, 1)
  else if first < 0xf0 then some (first - 0xe0, 0x80, 0xbf, 1)
  else if first = 0xf0 then some (0, 0x90, 0xbf, 2)
  else if first < 0xf4 then some (first - 0xf0, 0x80, 0xbf, 2)
  else if first = 0xf4 then some (4, 0x80, 0x8f, 2)
  else none

/-- Reads `count` continuation bytes, the first of them between `low` and `high`, after the bytes
`taken` with the bits `bits`: the code point and the bytes left, or the bytes that could begin a
sequence and the cause. -/
def continuation : (count low high bits : Nat) → (taken rest : List Nat) →
    Except (List Nat × Utf8Cause) (Nat × List Nat)
  | 0, _, _, bits, _, rest => .ok (bits, rest)
  | _ + 1, _, _, _, taken, [] => .error (taken, .unexpectedEnd)
  | count + 1, low, high, bits, taken, byte :: rest =>
    if low ≤ byte ∧ byte ≤ high then
      continuation count 0x80 0xbf (bits * 64 + (byte - 0x80)) (taken ++ [byte]) rest
    else .error (taken, .invalidContinuation)

theorem length_continuation {count low high bits : Nat} {taken rest : List Nat}
    {code : Nat} {left : List Nat}
    (run : continuation count low high bits taken rest = .ok (code, left)) :
    left.length ≤ rest.length := by
  induction count generalizing low high bits taken rest with
  | zero =>
    simp only [continuation, Except.ok.injEq, Prod.mk.injEq] at run
    simp [run.2]
  | succ count ih =>
    cases rest with
    | nil => simp [continuation] at run
    | cons byte rest =>
      simp only [continuation] at run
      split at run
      · have := ih run
        simp only [List.length_cons]
        omega
      · simp at run

def charsOfUtf8 (position : Nat) : List Nat → Except Utf8Fault (List Char)
  | [] => .ok []
  | first :: rest =>
    if first < 0x80 then
      match charsOfUtf8 (position + 1) rest with
      | .ok text => .ok (Char.ofNat first :: text)
      | .error fault => .error fault
    else
      match sequenceOf first with
      | none => .error ⟨position, [first], .invalidStart⟩
      | some (bits, low, high, further) =>
        match _ : continuation (further + 1) low high bits [first] rest with
        | .error (taken, cause) => .error ⟨position, taken, cause⟩
        | .ok (code, left) =>
          match charsOfUtf8 (position + further + 2) left with
          | .ok text => .ok (Char.ofNat code :: text)
          | .error fault => .error fault
termination_by bytes => bytes.length
decreasing_by
  · simp
  · rename_i run
    have := length_continuation run
    simp only [List.length_cons]
    omega

def ofUtf8 (bytes : List Nat) : Except Utf8Fault String :=
  match charsOfUtf8 0 bytes with
  | .ok text => .ok (String.ofList text)
  | .error fault => .error fault

def unifyLineEnds : List Char → List Char
  | [] => []
  | '\r' :: '\n' :: rest => '\n' :: unifyLineEnds rest
  | '\r' :: rest => '\n' :: unifyLineEnds rest
  | c :: rest => c :: unifyLineEnds rest

end Funlet.Text
