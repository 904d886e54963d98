import SecretTally.Election.Failure
import SecretTally.PublicKey
import SecretTally.Random.Source

/-! Making a key pair for an election: a safe prime of the wanted length, squares as generators, and a
private exponent. -/

namespace SecretTally.KeyCeremony

variable {σ : Type} [Source σ]

def survivesSieve (p : Nat) : Bool :=
  Primality.smallPrimes.all fun r => p % r ≠ 0 && p / 2 % r ≠ 0

/-- The first safe prime among `steps` candidates, from `p` on in steps of four. Past `top` the search
goes on from `bottom`. -/
def searchSafePrime (bottom top : Nat) : (steps p : Nat) → Option Nat
  | 0, _ => none
  | steps + 1, p =>
    if survivesSieve p && Primality.isSafePrime p then some p
    else searchSafePrime bottom top steps (if p + 4 < top then p + 4 else bottom)

def safePrime (bits : Nat) : Randomized σ ElectionFailure Nat := do
  let bottom := (1 <<< (bits - 1)) + 3
  match Modulus.ofNat? ((1 <<< (bits - 3)) - 1) with
  | none => throw .noPrime
  | some m =>
    let x ← Exponent.random m
    match searchSafePrime bottom (1 <<< bits) (1 <<< 22) (bottom + 4 * x.value) with
    | none => throw .noPrime
    | some p => return p

def randomSquare (p : Modulus) : (tries : Nat) → Randomized σ ElectionFailure Nat
  | 0 => throw .groupParameters
  | tries + 1 => do
    let x ← Exponent.random p
    let square := (x * x).value
    if 1 < square then return square else randomSquare p tries

def generate (bits : Nat) : Randomized σ ElectionFailure (PublicKey × Exponent) := do
  let n ← safePrime bits
  match Modulus.ofNat? n with
  | none => throw .noPrime
  | some p =>
    let g ← randomSquare p 256
    let f ← randomSquare p 256
    match PublicKey.ofNats p.value g f f with
    | .error _ => throw .groupParameters
    | .ok group =>
      let x ← Exponent.random group.q
      match PublicKey.ofNats p.value g (group.g ^ x).value f with
      | .error _ => throw .electionKey
      | .ok key => return (key, x)

end SecretTally.KeyCeremony
