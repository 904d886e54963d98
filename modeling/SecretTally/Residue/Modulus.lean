/-! Moduli of residue arithmetic: odd and greater than one. -/

namespace SecretTally

structure Modulus where
  value : Nat
  odd : value % 2 = 1
  three_le : 3 ≤ value
deriving DecidableEq

namespace Modulus

def of (n : Nat) (h : n % 2 = 1 ∧ 3 ≤ n) : Modulus := ⟨n, h.1, h.2⟩

def ofNat? (n : Nat) : Option Modulus :=
  if h : n % 2 = 1 ∧ 3 ≤ n then some (of n h) else none

def bits (m : Modulus) : Nat := m.value.log2 + 1

theorem pos (m : Modulus) : 0 < m.value := Nat.lt_of_lt_of_le (by decide) m.three_le

theorem ext {m n : Modulus} (h : m.value = n.value) : m = n := by
  cases m
  cases n
  cases h
  rfl

theorem mod_lt (m : Modulus) (n : Nat) : n % m.value < m.value := Nat.mod_lt n m.pos

end Modulus
end SecretTally
