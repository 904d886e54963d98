import SecretTally.Proof.Challenge
import SecretTally.Domain

/-! Checking a proof: every commitment is the one that its answer fits, and the shares add up to the
challenge. A domain may be longer than the proof; its further values take no part. -/

namespace SecretTally

namespace MembershipProof

def hasShape (proof : MembershipProof) (key : PublicKey) (domain : Domain) : Bool :=
  proof.y.length = proof.size && proof.z.length = proof.size && proof.s.length = proof.size
    && proof.size ≤ domain.size
    && proof.s.all (· < key.q.value) && proof.c.all (· < key.q.value)
    && proof.y.all (fun y => 0 < y && y < key.p.value)
    && proof.z.all (fun z => 0 < z && z < key.p.value)

def commitments (proof : MembershipProof) (key : PublicKey) (pair : Pair) (domain : Domain) :
    List Commitment :=
  List.zipWith (fun d a => a.commitment key pair d) domain.values (proof.answers key)

def totalShare (proof : MembershipProof) (key : PublicKey) : Exponent :=
  (proof.answers key).foldl (fun sum a => sum + a.c) (.zero key.q)

def holds (proof : MembershipProof) (digest : Digest) (key : PublicKey) (pair : Pair)
    (domain : Domain) : Bool :=
  proof.hasShape key domain &&
    let commitments := proof.commitments key pair domain
    proof.y = commitments.map (fun k => k.y.value) && proof.z = commitments.map (fun k => k.z.value)
      && proof.totalShare key = key.challenge digest pair commitments

/-- A proof or a pair of another group is refused; all other defects answer false. -/
def check (proof : MembershipProof) (digest : Digest) (key : PublicKey) (pair : Pair)
    (domain : Domain) : Except Refusal Bool :=
  if proof.matchesKey key && key.ownsPair pair then .ok (proof.holds digest key pair domain)
  else .error .foreignGroup

end MembershipProof
end SecretTally
