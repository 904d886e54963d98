import SecretTally.Primality.Lucas

/-! Safe primes, `p = 2 * q + 1` with both prime. Primality is decided by small divisors, a strong
test to base two and a strong Lucas test; no composite number is known to pass all three. -/

namespace SecretTally.Primality

def smallPrimes : List Nat :=
  [2, 3, 5, 7, 11, 13, 17, 19, 23, 29, 31, 37, 41, 43, 47, 53, 59, 61, 67, 71, 73, 79, 83, 89, 97,
    101, 103, 107, 109, 113, 127, 131, 137, 139, 149, 151, 157, 163, 167, 173, 179, 181, 191, 193,
    197, 199, 211]

/-- Below the square of the first prime that is not in the list, absence of small divisors
decides. -/
def isProbablePrime (n : Nat) : Bool :=
  if smallPrimes.contains n then true
  else if n < 2 || smallPrimes.any (fun p => n % p == 0) then false
  else if n < 223 * 223 then true
  else isStrongProbable n 2 && isStrongLucas n

/-- Five is the only safe prime that does not leave three modulo four. -/
def isSafePrime (p : Nat) : Bool :=
  p == 5 || (p % 4 == 3 && isProbablePrime (p / 2) && isProbablePrime p)

theorem isSafePrime_odd {p : Nat} (h : isSafePrime p = true) : p % 2 = 1 := by
  simp only [isSafePrime, Bool.or_eq_true, Bool.and_eq_true, beq_iff_eq] at h
  omega

end SecretTally.Primality
