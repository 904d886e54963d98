import SecretTally.Proof.Check
import SecretTally.Proof.Sum

/-! Ciphertexts: a pair, how many votes it stands for, and the proof that travels with it. Encryption
and addition return the randomness as well, which the next addition needs. -/

namespace SecretTally

structure Ciphertext where
  pair : Pair
  size : Nat
  proof : MembershipProof
deriving DecidableEq

namespace Ciphertext

variable {σ : Type} [Source σ]

def encrypt (key : PublicKey) (value : Nat) (domain : Domain) :
    Randomized σ Refusal (Ciphertext × Exponent) := do
  let r ← Exponent.random key.q
  let pair := Pair.encrypt key value r
  let proof ← prove standardDigest key pair r value domain
  return (⟨pair, 1, proof⟩, r)

def check (ct : Ciphertext) (key : PublicKey) (domain : Domain) : Except Refusal Bool :=
  ct.proof.check standardDigest key ct.pair domain

def summand (ct : Ciphertext) (randomness : Exponent) (domain : Domain) : Summand :=
  ⟨ct.pair, ct.proof, randomness, domain⟩

def combine (key : PublicKey) (a : Ciphertext) (r₁ : Exponent) (domain₁ : Domain) (b : Ciphertext)
    (r₂ : Exponent) (domain₂ merged : Domain) : Randomized σ SumFailure (Ciphertext × Exponent) :=
  if a.size ≠ b.size then throw (.refused (.badSum .sizes))
  else do
    let (pair, proof) ←
      sumProof standardDigest key (a.summand r₁ domain₁) (b.summand r₂ domain₂) merged
    return (⟨pair, a.size, proof⟩, r₁ + r₂)

end Ciphertext
end SecretTally
