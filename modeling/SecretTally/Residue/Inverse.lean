/-! Modular inverses by Euclid's algorithm. Only the coefficient of the number to invert is
carried along; each remainder is that coefficient times the number, up to multiples of the modulus. -/

namespace SecretTally

/-- Runs on two consecutive remainders and their coefficients until the second remainder is
zero, and returns the coefficient of the first, the greatest common divisor. The steps suffice once
there are more of them than the second remainder. -/
def bezout : (steps : Nat) → (r₀ : Nat) → (t₀ : Int) → (r₁ : Nat) → (t₁ : Int) → Int
  | 0, _, t₀, _, _ => t₀
  | steps + 1, r₀, t₀, r₁, t₁ =>
    if r₁ = 0 then t₀ else bezout steps r₁ t₁ (r₀ % r₁) (t₀ - (r₀ / r₁ : Nat) * t₁)

def inverseMod (a m : Nat) : Nat := (bezout (m + 1) m 0 (a % m) 1 % m).toNat

theorem bezout_spec {m a : Nat} {steps r₀ r₁ : Nat} {t₀ t₁ : Int}
    (h₀ : (m : Int) ∣ r₀ - t₀ * a) (h₁ : (m : Int) ∣ r₁ - t₁ * a) (hs : r₁ < steps) :
    (m : Int) ∣ (Nat.gcd r₀ r₁ : Nat) - bezout steps r₀ t₀ r₁ t₁ * a := by
  induction steps generalizing r₀ r₁ t₀ t₁ with
  | zero => omega
  | succ steps ih =>
    unfold bezout
    split
    · next hzero => simpa [hzero] using h₀
    · next hpos =>
      have hlt : r₀ % r₁ < r₁ := Nat.mod_lt _ (Nat.pos_of_ne_zero hpos)
      have hrem : ((r₀ % r₁ : Nat) : Int) = r₀ - (r₀ / r₁ : Nat) * r₁ := by
        have := Nat.div_add_mod r₀ r₁
        have hcast : ((r₁ * (r₀ / r₁) + r₀ % r₁ : Nat) : Int) = r₀ := by rw [this]
        rw [Int.natCast_add, Int.natCast_mul] at hcast
        rw [Int.mul_comm]
        omega
      have hnext : (m : Int) ∣ (r₀ % r₁ : Nat) - (t₀ - (r₀ / r₁ : Nat) * t₁) * a := by
        have hmul := Int.dvd_sub h₀ (Int.dvd_trans h₁ (Int.dvd_mul_left ((r₀ / r₁ : Nat) : Int) _))
        have hring : (r₀ : Int) - t₀ * a - (r₀ / r₁ : Nat) * (r₁ - t₁ * a)
            = (r₀ - (r₀ / r₁ : Nat) * r₁) - (t₀ - (r₀ / r₁ : Nat) * t₁) * a := by
          rw [Int.sub_mul, Int.mul_sub, Int.mul_assoc]
          omega
        rw [hrem, ← hring]
        exact hmul
      have hgcd : Nat.gcd r₀ r₁ = Nat.gcd r₁ (r₀ % r₁) := by
        rw [Nat.gcd_comm r₀ r₁, Nat.gcd_rec r₁ r₀, Nat.gcd_comm]
      rw [hgcd]
      exact ih h₁ hnext (by omega)

end SecretTally
