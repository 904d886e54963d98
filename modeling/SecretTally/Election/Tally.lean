import SecretTally.Ciphertext
import SecretTally.Election.Failure
import SecretTally.Wire.Printer
import SecretTally.Wire.Reader

/-! The encrypted tally of a yes/no election: ballots are encrypted with a proof of validity and added
up one by one, the proof of the sum along with them. At the end the proof is published as text and the
sum decrypted. -/

namespace SecretTally

structure Tally where
  ciphertext : Ciphertext
  randomness : Exponent
  domain : Domain

namespace Tally

variable {σ : Type} [Source σ]

def ballotDomain : Domain := ⟨[0, 1], by decide, by decide⟩

def add (key : PublicKey) (voter : Nat) (ballot : Ciphertext) (r : Exponent) :
    Option Tally → Randomized σ ElectionFailure Tally
  | none => return ⟨ballot, r, ballotDomain⟩
  | some tally =>
    match tally.domain.sum ballotDomain with
    | .error fault => throw (.refused (.badDomain fault))
    | .ok merged => do
      let (sum, sumRandomness) ← ExceptT.adapt (fun _ => .addition voter)
        (Ciphertext.combine key tally.ciphertext tally.randomness tally.domain ballot r ballotDomain
          merged)
      return ⟨sum, sumRandomness, merged⟩

def cast (key : PublicKey) (voter vote : Nat) (tally : Option Tally) :
    Randomized σ ElectionFailure Tally := do
  let (ballot, r) ← ExceptT.adapt (fun _ => .encryption voter)
    (Ciphertext.encrypt key vote ballotDomain)
  match ballot.check key ballotDomain with
  | .error why => throw (.refused why)
  | .ok false => throw (.ballotRejected voter)
  | .ok true => add key voter ballot r tally

def castAll (key : PublicKey) :
    (voter : Nat) → Option Tally → (votes : List Nat) → Randomized σ ElectionFailure (Option Tally)
  | _, tally, [] => return tally
  | voter, tally, vote :: votes => do
    let tally ← cast key voter vote tally
    castAll key (voter + 1) (some tally) votes

def ofVotes (key : PublicKey) (votes : List Nat) : Randomized σ ElectionFailure Tally := do
  match ← castAll key 0 none votes with
  | none => throw .noBallots
  | some tally => return tally

def publish (tally : Tally) : List UInt8 := tally.ciphertext.proof.print.map Char.toUInt8

def decrypt (key : PublicKey) (x : Exponent) (pair : Pair) (domain : Domain) : Option Nat :=
  domain.values.find? fun m => key.encode m = pair.unblind x

/-- Checks the published proof, decrypts the tally and compares it with the votes. -/
def audit (key : PublicKey) (x : Exponent) (tally : Tally) (published : List UInt8)
    (expected : Nat) : Except ElectionFailure Nat :=
  match MembershipProof.parseBytes published with
  | .error _ => .error .proofText
  | .ok proof =>
    match proof.check standardDigest key tally.ciphertext.pair tally.domain with
    | .error why => .error (.refused why)
    | .ok false => .error .tallyRejected
    | .ok true =>
      match decrypt key x tally.ciphertext.pair tally.domain with
      | none => .error .unknownTally
      | some count =>
        if count = expected then .ok count else .error (.wrongTally count expected)

end Tally
end SecretTally
