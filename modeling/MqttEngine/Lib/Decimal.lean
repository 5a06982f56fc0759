import Mathlib.Data.List.Basic

/-!
# Decimal numerals

A numeral is a list of digits that is not empty. Printing a number gives a numeral, from which the
number is read back.

## Main definitions

* `Decimal.parse` — the number that a numeral stands for.

## Main results

* `Decimal.parse_toDigits` — a number that is printed is read back.
-/

namespace Decimal

/-- The number that a numeral stands for. -/
def parse (cs : List Char) : Option ℕ :=
  if !cs.isEmpty && cs.all Char.isDigit then some (Nat.ofDigitChars 10 cs 0) else none

theorem parse_eq_some {cs : List Char} {n : ℕ} :
    parse cs = some n ↔
      cs ≠ [] ∧ (∀ c ∈ cs, c.isDigit = true) ∧ Nat.ofDigitChars 10 cs 0 = n := by
  have hspelled : (!cs.isEmpty && cs.all Char.isDigit) = true ↔
      cs ≠ [] ∧ ∀ c ∈ cs, c.isDigit = true := by simp
  rw [parse, Option.ite_none_right_eq_some, hspelled, and_assoc, Option.some_inj]

theorem isDigit_of_mem_toDigits {n : ℕ} {c : Char} (h : c ∈ Nat.toDigits 10 n) :
    c.isDigit = true :=
  Nat.isDigit_of_mem_toDigits (by decide) (by decide) h

/-- A number that is printed is read back. -/
@[simp] theorem parse_toDigits (n : ℕ) : parse (Nat.toDigits 10 n) = some n :=
  parse_eq_some.mpr
    ⟨Nat.toDigits_ne_nil, fun _ h => isDigit_of_mem_toDigits h, Nat.ofDigitChars_ten_toDigits⟩

/-- A digit is an ASCII character. -/
theorem toNat_lt_of_isDigit {c : Char} (h : c.isDigit = true) : 48 ≤ c.toNat ∧ c.toNat ≤ 57 := by
  simp only [Char.isDigit, Bool.and_eq_true, decide_eq_true_eq] at h
  exact h

end Decimal
