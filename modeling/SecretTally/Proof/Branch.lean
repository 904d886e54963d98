import SecretTally.Proof.Challenge

/-! Branches of a proof under construction. All but the true one are answered from the start; closing
the proof gives the open branch the share of the challenge that the others leave. -/

namespace SecretTally

/-- An open branch has no answer yet, and a commitment to a scalar that its prover kept. -/
structure Branch where
  commitment : Commitment
  answer : Option Answer
deriving DecidableEq

namespace Branch

def simulated (commitment : Commitment) (a : Answer) : Branch := ⟨commitment, some a⟩

def committed (key : PublicKey) (t : Exponent) : Branch := ⟨⟨key.g ^ t, key.h ^ t⟩, none⟩

def isOpen (b : Branch) : Bool := b.answer.isNone

end Branch

def remainingShare (challenge : Exponent) : List Branch → Exponent
  | [] => challenge
  | ⟨_, none⟩ :: rest => remainingShare challenge rest
  | ⟨_, some a⟩ :: rest => remainingShare (challenge - a.c) rest

def closingAnswer (t r share : Exponent) : Answer := ⟨share * r + t, share⟩

def closeProof (digest : Digest) (key : PublicKey) (pair : Pair) (t r : Exponent)
    (branches : List Branch) : MembershipProof :=
  let challenge := key.challenge digest pair (branches.map Branch.commitment)
  let closing := closingAnswer t r (remainingShare challenge branches)
  let answers := branches.map fun b => b.answer.getD closing
  { p := key.p.value
    q := key.q.value
    y := branches.map fun b => b.commitment.y.value
    z := branches.map fun b => b.commitment.z.value
    s := answers.map fun a => a.s.value
    c := answers.map fun a => a.c.value }

end SecretTally
