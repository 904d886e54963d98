import SecretTally.Election.KeyCeremony
import SecretTally.Election.Options
import SecretTally.Election.Tally

/-! A sample election from its options to its report: the events on the way and, if it was cut short,
the reason. -/

namespace SecretTally

inductive Event where
  | keyGenerated (bits : Nat)
  | proofPublished (bytes : Nat)
  | success (tally voters : Nat)
deriving DecidableEq

namespace Event

def text : Event → String
  | .keyGenerated _ => "generated election key"
  | .proofPublished _ => "published tally proof"
  | .success _ _ => "the election is a success"

def fields : Event → List (String × Nat)
  | .keyGenerated bits => [("bits", bits)]
  | .proofPublished bytes => [("bytes", bytes)]
  | .success tally voters => [("tally", tally), ("voters", voters)]

end Event

structure Report where
  events : List Event
  failure : Option ElectionFailure
deriving DecidableEq

namespace Election

variable {σ : Type} [Source σ]

def randomVotes (q : Modulus) : Nat → Randomized σ ElectionFailure (List Nat)
  | 0 => return []
  | n + 1 => do
    let x ← Exponent.random q
    let rest ← randomVotes q n
    return x.value % 2 :: rest

def makeKey (o : Options) : Randomized σ ElectionFailure (PublicKey × Exponent) :=
  if o.voters = 0 then throw .noVoters
  else if o.bits < 16 ∨ 2048 < o.bits then throw .primeSize
  else KeyCeremony.generate o.bits

def collect (key : PublicKey) (voters : Nat) : Randomized σ ElectionFailure (List Nat × Tally) := do
  let votes ← randomVotes key.q voters
  let tally ← Tally.ofVotes key votes
  return (votes, tally)

def hold (o : Options) (s : σ) : Report :=
  match makeKey o s with
  | (.error why, _) => ⟨[], some why⟩
  | (.ok (key, x), s) =>
    match collect key o.voters s with
    | (.error why, _) => ⟨[.keyGenerated o.bits], some why⟩
    | (.ok (votes, tally), _) =>
      let published := tally.publish
      let events := [.keyGenerated o.bits, .proofPublished published.length]
      match tally.audit key x published (votes.count 1) with
      | .error why => ⟨events, some why⟩
      | .ok count => ⟨events ++ [.success count o.voters], none⟩

end Election
end SecretTally
