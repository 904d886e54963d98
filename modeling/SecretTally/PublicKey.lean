import SecretTally.Primality.Safe
import SecretTally.Refusal
import SecretTally.Residue.Element

/-! Public keys of exponential ElGamal encryption: a safe prime `p = 2 * q + 1` and three generators
of the subgroup of order `q`. Plaintext `m` is encoded as `f ^ m`. -/

namespace SecretTally

/-- An element other than one whose power to the order is one. The order itself is zero as an
exponent, so the power is taken in two steps. -/
structure IsGenerator (p q : Modulus) (x : Element) : Prop where
  modulus_eq : x.modulus = p
  one_lt : 1 < x.value
  power_eq : (x ^ Exponent.ofNat (q.value - 1) q * x).value = 1

structure PublicKey where
  p : Modulus
  q : Modulus
  g : Element
  h : Element
  f : Element
  safe : Primality.isSafePrime p.value = true
  half : q.value = (p.value - 1) / 2
  isGenerator_g : IsGenerator p q g
  isGenerator_h : IsGenerator p q h
  isGenerator_f : IsGenerator p q f
deriving DecidableEq

namespace PublicKey

def generator (p q : Modulus) (n : Nat) : Except KeyFault { x : Element // IsGenerator p q x } :=
  if hrange : 0 < n ∧ n < p.value then
    let x : Element := ⟨p, n, hrange.2⟩
    if hone : n = 1 then .error .identity
    else if hpow : (x ^ Exponent.ofNat (q.value - 1) q * x).value = 1 then
      .ok ⟨x, rfl, Nat.lt_of_le_of_ne hrange.1 (Ne.symm hone), hpow⟩
    else .error .outsideSubgroup
  else .error .outsideGroup

def ofNats (p g h f : Nat) : Except KeyFault PublicKey :=
  if safe : Primality.isSafePrime p = true then
    if hp : p % 2 = 1 ∧ 3 ≤ p then
      if hq : (p - 1) / 2 % 2 = 1 ∧ 3 ≤ (p - 1) / 2 then do
        let p' := Modulus.of p hp
        let q' := Modulus.of ((p - 1) / 2) hq
        let g' ← generator p' q' g
        let h' ← generator p' q' h
        let f' ← generator p' q' f
        return ⟨p', q', g'.val, h'.val, f'.val, safe, rfl, g'.property, h'.property, f'.property⟩
      else .error .evenOrder
    else .error .evenPrime
  else .error .notSafePrime

def encode (key : PublicKey) (m : Nat) : Element := key.f ^ Exponent.ofNat m key.q

def owns (key : PublicKey) (x : Element) : Bool := x.modulus = key.p

end PublicKey
end SecretTally
