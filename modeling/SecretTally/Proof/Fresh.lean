import SecretTally.Proof.Branch
import SecretTally.Domain
import SecretTally.Random.Source

/-! Proofs made by whoever encrypted the pair. Every position draws its answer, the true one too, so
that the randomness used does not depend on the plaintext. -/

namespace SecretTally

variable {σ : Type} [Source σ]

def Answer.random {ε : Type} (q : Modulus) : Randomized σ ε Answer := do
  let s ← Exponent.random q
  let c ← Exponent.random q
  return ⟨s, c⟩

def Answer.randomList {ε : Type} (q : Modulus) : Nat → Randomized σ ε (List Answer)
  | 0 => return []
  | n + 1 => do
    let a ← Answer.random q
    let rest ← Answer.randomList q n
    return a :: rest

def freshBranch (key : PublicKey) (pair : Pair) (value : Nat) (t : Exponent) (d : Nat)
    (a : Answer) : Branch :=
  if d = value then .committed key t else .simulated (a.commitment key pair d) a

def freshBranches (key : PublicKey) (pair : Pair) (value : Nat) (domain : Domain) (t : Exponent)
    (answers : List Answer) : List Branch :=
  List.zipWith (freshBranch key pair value t) domain.values answers

/-- Proves that the pair encrypts `value` with randomness `r`, as one value of the domain. -/
def prove (digest : Digest) (key : PublicKey) (pair : Pair) (r : Exponent) (value : Nat)
    (domain : Domain) : Randomized σ Refusal MembershipProof :=
  if !key.ownsPair pair then throw .foreignGroup
  else if !domain.contains value then throw (.absentValue value)
  else do
    let t ← Exponent.random key.q
    let answers ← Answer.randomList key.q domain.size
    return closeProof digest key pair t r (freshBranches key pair value domain t answers)

end SecretTally
