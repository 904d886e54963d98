import SecretTally.Proof.Fresh

/-! Proofs for the product of two pairs, made from the proofs of both and their randomness. Both proofs
are stretched to the merged domain; then at each value the answers add up and the commitments
multiply, less the cross terms in which one pair's randomness meets the other pair's share. -/

namespace SecretTally

variable {σ : Type} [Source σ]

structure Summand where
  pair : Pair
  proof : MembershipProof
  randomness : Exponent
  domain : Domain

inductive SumFailure where
  | refused (why : Refusal)
  /-- The proof has too few responses for its domain. -/
  | missingEntry
deriving DecidableEq

namespace Summand

def answerAt (key : PublicKey) (summand : Summand) (d : Nat) : Randomized σ SumFailure Answer :=
  match summand.domain.position? d with
  | none => Answer.random key.q
  | some i =>
    match summand.proof.s[i]?, summand.proof.c[i]? with
    | some s, some c => return ⟨Exponent.ofNat s key.q, Exponent.ofNat c key.q⟩
    | _, _ => throw .missingEntry

def stretch (key : PublicKey) (summand : Summand) (merged : Domain) :
    Randomized σ SumFailure (List Answer) :=
  if summand.proof.size ≠ summand.domain.size then throw (.refused (.badSum .proofLength))
  else merged.values.mapM (answerAt key summand)

def inGroup (key : PublicKey) (summand : Summand) : Bool :=
  summand.proof.matchesKey key && key.ownsPair summand.pair

end Summand

/-- The commitment that the sum of two answers fits for the product of the pairs, at plaintext `d`
of the product, if each pair's pad is a power of the generator to its randomness. -/
def sumCommitment (key : PublicKey) (lhs rhs : Summand) (d : Nat) (a b : Answer) : Commitment :=
  let left := a.commitment key lhs.pair d
  let right := b.commitment key rhs.pair d
  ⟨left.y * right.y / key.g ^ (rhs.randomness * a.c + lhs.randomness * b.c),
    left.z * right.z / (rhs.pair.data ^ a.c * lhs.pair.data ^ b.c)⟩

def isPlaintext (key : PublicKey) (pair : Pair) (blinding : Element) (d : Nat) : Bool :=
  (pair.data / key.encode d).value = blinding.value

def sumBranch (key : PublicKey) (lhs rhs : Summand) (blinding : Element) (t : Exponent) (d : Nat)
    (answers : Answer × Answer) : Branch :=
  if isPlaintext key (lhs.pair * rhs.pair) blinding d then .committed key t
  else .simulated (sumCommitment key lhs rhs d answers.1 answers.2) (answers.1 + answers.2)

def sumBranches (key : PublicKey) (lhs rhs : Summand) (merged : Domain) (t : Exponent)
    (left right : List Answer) : List Branch :=
  let blinding := key.h ^ (lhs.randomness + rhs.randomness)
  List.zipWith (sumBranch key lhs rhs blinding t) merged.values (left.zip right)

def sumProof (digest : Digest) (key : PublicKey) (lhs rhs : Summand) (merged : Domain) :
    Randomized σ SumFailure (Pair × MembershipProof) :=
  if !(lhs.inGroup key && rhs.inGroup key) then throw (.refused .foreignGroup)
  else do
    let left ← lhs.stretch key merged
    let right ← rhs.stretch key merged
    let t ← Exponent.random key.q
    let pair := lhs.pair * rhs.pair
    let branches := sumBranches key lhs rhs merged t left right
    if branches.any Branch.isOpen then
      return (pair, closeProof digest key pair t (lhs.randomness + rhs.randomness) branches)
    else throw (.refused (.badSum .plaintextOutside))

end SecretTally
