import Funlet.Number.Digits
import Funlet.Number.Power
import Mathlib.Tactic.Ring

/-!
# Digits and their value

The digits of a number are decimal digits, and their value is the number.
-/

set_option autoImplicit false

namespace Funlet.Digits

theorem isDigit_iff {c : Char} : c.isDigit = true ↔ 48 ≤ c.toNat ∧ c.toNat ≤ 57 := by
  simp [Char.isDigit, UInt32.le_iff_toNat_le]

theorem isDigit_symbol {digit : Nat} (small : digit < 10) : (symbol digit).isDigit = true := by
  revert digit
  decide

theorem toNat_symbol {digit : Nat} (small : digit < 10) : (symbol digit).toNat - 48 = digit := by
  revert digit
  decide

theorem symbol_ne_zero {digit : Nat} (small : digit < 10) (positive : 0 < digit) :
    symbol digit ≠ '0' := by
  revert positive
  revert digit
  decide

theorem ofNat_ne_nil (base n : Nat) : ofNat base n ≠ [] := by
  rw [ofNat]
  split <;> simp

theorem isDigit_of_mem_ofNat {n : Nat} {c : Char} (member : c ∈ ofNat 10 n) :
    c.isDigit = true := by
  induction n using Nat.strongRecOn with
  | ind n ih =>
    rw [ofNat] at member
    split at member
    · rename_i large
      rcases List.mem_append.mp member with before | last
      · exact ih (n / 10) (by omega) before
      · rw [List.mem_singleton.mp last]
        exact isDigit_symbol (by omega)
    · rename_i small
      rw [List.mem_singleton.mp member]
      exact isDigit_symbol (by omega)

theorem length_ofNat_le {base n places : Nat} (filled : 0 < places)
    (small : n < power base places) : (ofNat base n).length ≤ places := by
  induction places generalizing n with
  | zero => omega
  | succ places ih =>
    rw [ofNat]
    split
    · rename_i large
      have shorter : n / base < power base places :=
        Nat.div_lt_of_lt_mul (by rwa [Nat.mul_comm])
      have more : 0 < places := by
        rcases Nat.eq_zero_or_pos places with rfl | more
        · have below : n < base := by simpa [power] using small
          omega
        · exact more
      simpa using ih more shorter
    · simp

theorem lt_power_length_ofNat {base : Nat} (many : 1 < base) (n : Nat) :
    n < power base (ofNat base n).length := by
  induction n using Nat.strongRecOn with
  | ind n ih =>
    rw [ofNat]
    split
    · rename_i large
      have shorter := ih (n / base) (Nat.div_lt_self (by omega) many)
      rw [List.length_append, List.length_singleton, power_add]
      have one : power base 1 = base := Nat.pow_one base
      rw [one]
      exact (Nat.div_lt_iff_lt_mul (by omega)).mp shorter
    · rename_i small
      have below : n < base := by omega
      simpa [power] using below

theorem exists_ofNat_eq_cons {n : Nat} (positive : 0 < n) :
    ∃ first rest, ofNat 10 n = first :: rest ∧ first ≠ '0' := by
  induction n using Nat.strongRecOn with
  | ind n ih =>
    rw [ofNat]
    split
    · obtain ⟨first, rest, written, nonzero⟩ := ih (n / 10) (by omega) (by omega)
      exact ⟨first, rest ++ [symbol (n % 10)], by rw [written, List.cons_append], nonzero⟩
    · rename_i small
      have digit : n < 10 := by omega
      exact ⟨symbol n, [], rfl, symbol_ne_zero digit positive⟩

theorem foldl_digits (start : Nat) (digits : List Char) :
    digits.foldl (fun total c => total * 10 + (c.toNat - 48)) start =
      start * 10 ^ digits.length + value digits := by
  induction digits generalizing start with
  | nil => simp [value]
  | cons c rest ih =>
    simp only [List.foldl_cons, value, List.length_cons]
    rw [ih, ih (0 * 10 + (c.toNat - 48)), Nat.pow_succ]
    ring

theorem value_append (first second : List Char) :
    value (first ++ second) = value first * 10 ^ second.length + value second := by
  rw [value, List.foldl_append, foldl_digits]
  rfl

theorem value_ofNat (n : Nat) : value (ofNat 10 n) = n := by
  induction n using Nat.strongRecOn with
  | ind n ih =>
    rw [ofNat]
    split
    · rename_i large
      rw [value_append, ih (n / 10) (by omega)]
      have last : value [symbol (n % 10)] = n % 10 := by
        simp [value, toNat_symbol (Nat.mod_lt n (by decide))]
      rw [last]
      simp only [List.length_cons, List.length_nil]
      omega
    · rename_i small
      have digit : n < 10 := by omega
      simp [value, toNat_symbol digit]

theorem value_replicate_zero (count : Nat) : value (List.replicate count '0') = 0 := by
  induction count with
  | zero => rfl
  | succ count ih =>
    rw [List.replicate_succ, ← List.singleton_append, value_append, ih]
    simp [value]

end Funlet.Digits
