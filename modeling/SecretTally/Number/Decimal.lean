/-! Decimal text of natural numbers. Printing writes no superfluous zero; reading takes any
non-empty run of ASCII digits whose value fits the working width. -/

namespace SecretTally.Decimal

/-- Every integer read from text or held by a key fits this many bits. -/
def width : Nat := 2048

def limit : Nat := 1 <<< width

def wordLimit : Nat := 1 <<< 64

def print (n : Nat) : List Char := Nat.toDigits 10 n

def value (digits : List Char) : Nat := Nat.ofDigitChars 10 digits 0

/-- Refuses the empty text, any character that is no ASCII digit, and a value of `limit` or more. -/
def parse? (text : List Char) : Option Nat :=
  if text ≠ [] ∧ text.all Char.isDigit = true ∧ value text < limit then some (value text) else none

theorem value_print (n : Nat) : value (print n) = n := Nat.ofDigitChars_ten_toDigits

theorem print_ne_nil (n : Nat) : print n ≠ [] := Nat.toDigits_ne_nil

theorem isDigit_of_mem_print {n : Nat} {c : Char} (h : c ∈ print n) : c.isDigit = true :=
  Nat.isDigit_of_mem_toDigits (by decide) (by decide) h

end SecretTally.Decimal
