import SecretTally.Domain

/-! Domains as they are stored: words in a list that is read by index. Every index is tested, and
one outside the list leaves no result at all. That there are values and that they increase is
checked when a domain is made, and not kept with it. -/

namespace SecretTally

structure WordDomain where
  values : List UInt64
deriving DecidableEq

namespace WordDomain

def neighbours (values : List UInt64) : List (UInt64 × UInt64) := values.zip values.tail

def ofList (values : List UInt64) : Except DomainFault WordDomain :=
  if values.isEmpty then .error .empty
  else if (neighbours values).any (fun (a, b) => a ≥ b) then .error .notIncreasing
  else .ok ⟨values⟩

def interval (least greatest : UInt64) : List UInt64 :=
  (List.range ((greatest - least).toNat + 1)).map fun i => least + UInt64.ofNat i

def maxWidth : UInt64 := UInt64.ofNat Domain.maxWidth

def range (least greatest : UInt64) : Except DomainFault WordDomain :=
  if least > greatest then .error .reversedRange
  else if greatest - least ≥ maxWidth then .error .wideRange
  else ofList (interval least greatest)

def min? (d : WordDomain) : Option UInt64 := d.values[0]?

def max? (d : WordDomain) : Option UInt64 :=
  match d.values.length with
  | 0 => none
  | last + 1 => d.values[last]?

def add? (a b : UInt64) : Option UInt64 :=
  if a.toNat + b.toNat < Decimal.wordLimit then some (a + b) else none

def sum (a b : WordDomain) : Option (Except DomainFault WordDomain) := do
  let least := add? (← a.min?) (← b.min?)
  let greatest := add? (← a.max?) (← b.max?)
  match least, greatest with
  | some least, some greatest => return range least greatest
  | _, _ => return .error .overflow

/-- Halves the stretch of so many values from `base` on, until one is left. If the wanted value
stands in the stretch, it is this one. -/
def narrow (values : List UInt64) (wanted : UInt64) (base size : Nat) : Option Nat :=
  if size ≤ 1 then some base
  else do
    let middle := base + size / 2
    let probe ← values[middle]?
    narrow values wanted (if probe > wanted then base else middle) (size - size / 2)
termination_by size
decreasing_by omega

/-- Where the value stands, if it does. The outer option is none if an index missed the list. -/
def position (d : WordDomain) (wanted : UInt64) : Option (Option Nat) :=
  if d.values.length = 0 then some none
  else do
    let i ← narrow d.values wanted 0 d.values.length
    let found ← d.values[i]?
    return if found = wanted then some i else none

def contains (d : WordDomain) (wanted : UInt64) : Option Bool := Option.isSome <$> d.position wanted

def numbers (d : WordDomain) : List Nat := d.values.map UInt64.toNat

def domain (d : WordDomain) : Except DomainFault Domain := Domain.ofList d.numbers

end WordDomain
end SecretTally
