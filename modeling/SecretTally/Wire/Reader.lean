import SecretTally.Proof.Basic
import SecretTally.Wire.Item

/-! Reading a proof from its text. The number of items has to split into a prime and four lists of one
length; then each number has to carry the tag of its place and lie in the range of its list. -/

namespace SecretTally

def Item.read (expected : Tag) (bound : Nat) (item : Item) : Except TextFault Nat :=
  if item.tag ≠ expected then .error (.wrongTag expected item.tag)
  else
    match Decimal.parse? item.digits with
    | none => .error (.wideValue item.digits)
    | some v => if v < bound then .ok v else .error (.outOfRange expected)

def readRun (expected : Tag) (bound : Nat) : List Item → Except TextFault (List Nat)
  | [] => .ok []
  | item :: rest => do
    let v ← item.read expected bound
    let vs ← readRun expected bound rest
    return v :: vs

def readPrime (item : Item) : Except TextFault Nat :=
  if item.tag ≠ .p then .error (.wrongTag .p item.tag)
  else
    match Decimal.parse? item.digits with
    | none => .error .widePrime
    | some p => if 5 ≤ p ∧ p % 2 = 1 then .ok p else .error .badPrime

namespace MembershipProof

def ofItems : List Item → Except TextFault MembershipProof
  | [] => .error (.tokenCount 0)
  | first :: runs =>
    if runs.length % 4 ≠ 0 then .error (.tokenCount (2 * (runs.length + 1)))
    else do
      let n := runs.length / 4
      let p ← readPrime first
      let q := (p - 1) / 2
      let y ← readRun .y p (runs.take n)
      let z ← readRun .z p ((runs.drop n).take n)
      let s ← readRun .s q ((runs.drop (2 * n)).take n)
      let c ← readRun .c q (runs.drop (3 * n))
      return ⟨p, q, y, z, s, c⟩

def parse (text : List Char) : Except TextFault MembershipProof := do
  let items ← Item.split text
  ofItems items

def parseBytes (bytes : List UInt8) : Except TextFault MembershipProof :=
  match Utf8.decode bytes with
  | .ok text => parse text
  | .error fault => .error (.notUtf8 fault)

end MembershipProof
end SecretTally
