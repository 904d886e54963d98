import SecretTally.Pair

/-! Membership proofs: for every value of a domain a branch, which claims that a pair encrypts this
value. A branch commits to two elements and answers a share of the challenge; whoever knows the answer
beforehand can compute the commitment that it fits. -/

namespace SecretTally

/-- The lists run in step with the domain of the proof, and `p` and `q` name its group. Nothing else
is promised: entries and lengths are what a prover sent. -/
structure MembershipProof where
  p : Nat
  q : Nat
  y : List Nat
  z : List Nat
  s : List Nat
  c : List Nat
deriving DecidableEq

structure Commitment where
  y : Element
  z : Element
deriving DecidableEq

structure Answer where
  s : Exponent
  c : Exponent
deriving DecidableEq

instance : Add Answer := ⟨fun a b => ⟨a.s + b.s, a.c + b.c⟩⟩

/-- The one commitment that an answer fits, in the branch for plaintext `d`. -/
def Answer.commitment (key : PublicKey) (pair : Pair) (d : Nat) (a : Answer) : Commitment :=
  ⟨key.g ^ a.s * pair.pad ^ (-a.c), key.h ^ a.s * (pair.data / key.encode d) ^ (-a.c)⟩

namespace MembershipProof

def size (proof : MembershipProof) : Nat := proof.c.length

def matchesKey (proof : MembershipProof) (key : PublicKey) : Bool :=
  proof.p = key.p.value && proof.q = key.q.value

def answers (proof : MembershipProof) (key : PublicKey) : List Answer :=
  List.zipWith (fun s c => ⟨Exponent.ofNat s key.q, Exponent.ofNat c key.q⟩) proof.s proof.c

end MembershipProof
end SecretTally
