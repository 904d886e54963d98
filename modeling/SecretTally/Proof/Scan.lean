import SecretTally.Proof.Check
import SecretTally.Residue.Bounded

/-! Checking a proof as it is carried out: one pass over the values that it answers, which stops at
the first entry out of its range. Every list is read by index, and residues with different moduli are
not combined. Where an entry is missing or the moduli differ, no result is left at all. -/

namespace SecretTally

def Element.mul? (a b : Element) : Option Element :=
  if a.modulus = b.modulus then some (a * b) else none

def Element.div? (a b : Element) : Option Element :=
  if a.modulus = b.modulus then some (a / b) else none

def BoundedExponent.add? (a b : BoundedExponent) : Option BoundedExponent :=
  if a.modulus = b.modulus then some (a + b) else none

def PublicKey.commitment? (key : PublicKey) (pair : Pair) (d : Nat) (s c : BoundedExponent) :
    Option Commitment := do
  let y ← (key.g ^ s).mul? (pair.pad ^ (-c))
  let quotient ← pair.data.div? (key.f ^ BoundedExponent.ofNat d key.q)
  let z ← (key.h ^ s).mul? (quotient ^ (-c))
  return ⟨y, z⟩

structure Scan where
  consistent : Bool
  sum : BoundedExponent
  text : List Char

def Scan.start (key : PublicKey) (pair : Pair) : Scan :=
  ⟨true, .zero key.q, key.g.text ++ key.h.text ++ pair.pad.text ++ pair.data.text⟩

def Scan.verdict (digest : Digest) (key : PublicKey) (scan : Scan) : Option Bool :=
  if scan.consistent then do
    let challenge ← BoundedExponent.ofBytes? (digest (scan.text.map Char.toUInt8)) key.q
    return scan.sum = challenge
  else return false

namespace MembershipProof

/-- The branch at index `i`, for the value `d`. The inner option is none if an entry is out of
range. -/
def scanAt (proof : MembershipProof) (key : PublicKey) (pair : Pair) (i d : Nat) (scan : Scan) :
    Option (Option Scan) := do
  let s ← proof.s[i]?
  if key.q.value ≤ s then return none
  let c ← proof.c[i]?
  if key.q.value ≤ c then return none
  match Element.ofNat? (← proof.y[i]?) key.p, Element.ofNat? (← proof.z[i]?) key.p with
  | some y, some z =>
    let s := BoundedExponent.ofNat s key.q
    let c := BoundedExponent.ofNat c key.q
    let k ← key.commitment? pair d s c
    let sum ← scan.sum.add? c
    let consistent := scan.consistent && (k.y.value = y.value && k.z.value = z.value)
    return some ⟨consistent, sum, scan.text ++ k.text⟩
  | _, _ => return none

def scanFrom (proof : MembershipProof) (key : PublicKey) (pair : Pair) :
    (i : Nat) → (values : List Nat) → Scan → Option (Option Scan)
  | _, [], scan => return some scan
  | i, d :: values, scan => do
    match ← proof.scanAt key pair i d scan with
    | none => return none
    | some scan => proof.scanFrom key pair (i + 1) values scan

def scan (proof : MembershipProof) (digest : Digest) (key : PublicKey) (pair : Pair)
    (domain : Domain) : Option Bool := do
  match ← proof.scanFrom key pair 0 (domain.values.take proof.size) (.start key pair) with
  | none => return false
  | some scan => scan.verdict digest key

/-- The outer option is none if an index missed its list or moduli were mixed. -/
def check? (proof : MembershipProof) (digest : Digest) (key : PublicKey) (pair : Pair)
    (domain : Domain) : Option (Except Refusal Bool) :=
  if !proof.matchesKey key || !key.owns pair.pad || !key.owns pair.data then
    some (.error .foreignGroup)
  else if proof.y.length ≠ proof.size ∨ proof.z.length ≠ proof.size ∨
      proof.s.length ≠ proof.size then
    some (.ok false)
  else if domain.size < proof.size then some (.ok false)
  else .ok <$> proof.scan digest key pair domain

end MembershipProof
end SecretTally
