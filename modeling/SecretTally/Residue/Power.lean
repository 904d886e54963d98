/-! Modular powers over a fixed number of exponent bits, so that the work done does not depend on
the exponent. Bits beyond the count are ignored. -/

namespace SecretTally

def powerLow (m : Nat) : (bits base e : Nat) → Nat
  | 0, _, _ => 1 % m
  | bits + 1, base, e =>
    let rest := powerLow m bits (base * base % m) (e / 2)
    if e % 2 = 1 then rest * base % m else rest

theorem powerLow_lt {m : Nat} (hm : 0 < m) (bits base e : Nat) : powerLow m bits base e < m := by
  induction bits generalizing base e with
  | zero => exact Nat.mod_lt _ hm
  | succ bits ih =>
    simp only [powerLow]
    split
    · exact Nat.mod_lt _ hm
    · exact ih ..

end SecretTally
