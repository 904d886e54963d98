import SecretTally.Residue.Power

/-! The strong probable-prime test to one base: for `n - 1 = d * 2 ^ s` with `d` odd, a prime `n`
has `base ^ d = 1`, or some square of it up to the exponent `d * 2 ^ (s - 1)` is `-1`. -/

namespace SecretTally.Primality

def twos : (most n : Nat) → Nat
  | 0, _ => 0
  | most + 1, n => if n % 2 = 0 then twos most (n / 2) + 1 else 0

def squaresReach (n target : Nat) : (count x : Nat) → Bool
  | 0, _ => false
  | count + 1, x => x == target || squaresReach n target count (x * x % n)

def isStrongProbable (n base : Nat) : Bool :=
  let bits := n.log2 + 1
  let s := twos bits (n - 1)
  let x := powerLow n bits (base % n) ((n - 1) >>> s)
  x == 1 || squaresReach n (n - 1) s x

end SecretTally.Primality
