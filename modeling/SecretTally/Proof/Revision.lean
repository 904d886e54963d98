import SecretTally.Domain.Words
import SecretTally.Proof.Sum

/-! Stretching a proof as it is carried out, on domains as they are stored. The ends of the proof's
own domain are read once, and a value beyond them is not searched for. Lists are read by index. -/

namespace SecretTally

variable {σ : Type} [Source σ]

def orMissing {α : Type} : Option α → Randomized σ SumFailure α
  | none => throw .missingEntry
  | some a => return a

namespace MembershipProof

def locate (own : WordDomain) (least greatest d : UInt64) : Randomized σ SumFailure (Option Nat) :=
  if d < least || d > greatest then return none
  else orMissing (own.position d)

/-- The response and the share at the value's place, reduced, and two draws in its absence. -/
def revisedAt (key : PublicKey) (proof : MembershipProof) (own : WordDomain)
    (least greatest d : UInt64) : Randomized σ SumFailure Answer := do
  match ← locate own least greatest d with
  | some j =>
    let s ← orMissing proof.s[j]?
    let c ← orMissing proof.c[j]?
    return ⟨Exponent.ofNat s key.q, Exponent.ofNat c key.q⟩
  | none => Answer.random key.q

def revise (key : PublicKey) (proof : MembershipProof) (own merged : WordDomain) :
    Randomized σ SumFailure (List Answer) :=
  if proof.size ≠ own.values.length then throw (.refused (.badSum .proofLength))
  else do
    let least ← orMissing own.min?
    let greatest ← orMissing own.max?
    merged.values.mapM (revisedAt key proof own least greatest)

end MembershipProof
end SecretTally
