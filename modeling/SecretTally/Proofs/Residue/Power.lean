import Mathlib
import SecretTally.Residue.Element

/-! Powers over a fixed number of bits are powers: an exponent below its modulus fits in the bit
length of the modulus, so that no bit of it is lost. -/

namespace SecretTally

theorem powerLow_eq (m : ℕ) {bits base e : ℕ} (he : e < 2 ^ bits) :
    powerLow m bits base e = base ^ e % m := by
  induction bits generalizing base e with
  | zero =>
    have hzero : e = 0 := by simpa using he
    simp [powerLow, hzero]
  | succ bits ih =>
    have hhalf : e / 2 < 2 ^ bits := by
      rw [pow_succ] at he
      exact Nat.div_lt_of_lt_mul (by rwa [mul_comm] at he)
    have hsquare : (base * base % m) ^ (e / 2) % m = base ^ (2 * (e / 2)) % m := by
      rw [← Nat.pow_mod, pow_mul, sq]
    simp only [powerLow, ih hhalf, hsquare]
    split
    · next hodd =>
      have hsplit : base ^ e = base ^ (2 * (e / 2)) * base := by
        rw [← pow_succ]
        congr 1
        omega
      rw [hsplit, Nat.mod_mul_mod]
    · next heven =>
      have hdouble : 2 * (e / 2) = e := by omega
      rw [hdouble]

theorem Modulus.value_lt_two_pow_bits (m : Modulus) : m.value < 2 ^ m.bits := Nat.lt_log2_self

theorem Exponent.value_lt_two_pow_bound (e : Exponent) : e.value < 2 ^ e.bound :=
  e.value_lt.trans e.modulus.value_lt_two_pow_bits

theorem Element.value_pow (a : Element) (e : Exponent) :
    (a ^ e).value = a.value ^ e.value % a.modulus.value :=
  powerLow_eq a.modulus.value e.value_lt_two_pow_bound

end SecretTally
