import SecretTally.Checked
import SecretTally.Wire.Reader

/-! Reading by positions. A reader that counts bytes and indices cuts a text and a list where its
counts say, and takes the code of zero off the codes of digits. Here every cut and every difference is
tested, and one that does not exist leaves no result at all. -/

namespace SecretTally.Position
open Checked

def byteLength : List Char → Nat
  | [] => 0
  | c :: rest => c.utf8Size + byteLength rest

def cut? : (n : Nat) → List Char → Option (List Char × List Char)
  | 0, text => some ([], text)
  | _ + 1, [] => none
  | n + 1, c :: rest =>
    if c.utf8Size ≤ n + 1 then
      (cut? (n + 1 - c.utf8Size) rest).map fun (front, back) => (c :: front, back)
    else none

def digitsEnd : List Char → Nat
  | [] => 0
  | c :: rest => if c.isDigit then c.utf8Size + digitsEnd rest else 0

/-- Splits what is left of a text of `total` bytes, in so many steps at most. -/
def split (total : Nat) : (steps : Nat) → (text : List Char) → Option (Except TextFault (List Item))
  | _, [] => return .ok []
  | 0, _ :: _ => none
  | steps + 1, ch :: rest => do
    let offset ← difference? total (byteLength (ch :: rest))
    match Tag.ofLetter? ch with
    | none => return .error (.noTag offset ch)
    | some tag =>
      let (_, body) ← cut? 1 (ch :: rest)
      if digitsEnd body = 0 then return .error (.noValue tag offset)
      else
        let (digits, rest) ← cut? (digitsEnd body) body
        let items ← split total steps rest
        return (⟨tag, digits⟩ :: ·) <$> items

def value (digits : List Char) : Option Nat :=
  digits.foldlM (fun v c => (10 * v + ·) <$> difference? c.toNat '0'.toNat) 0

def number (text : List Char) : Option (Option Nat) :=
  if text ≠ [] ∧ text.all Char.isDigit = true then do
    let v ← value text
    return if v < Decimal.limit then some v else none
  else return none

def read (expected : Tag) (bound : Nat) (item : Item) : ExceptT TextFault Option Nat :=
  if item.tag ≠ expected then throw (.wrongTag expected item.tag)
  else do
    match ← number item.digits with
    | none => throw (.wideValue item.digits)
    | some v => if v < bound then return v else throw (.outOfRange expected)

def readRun (expected : Tag) (bound : Nat) : List Item → ExceptT TextFault Option (List Nat)
  | [] => return []
  | item :: rest => do
    let v ← read expected bound item
    let vs ← readRun expected bound rest
    return v :: vs

def readPrime (item : Item) : ExceptT TextFault Option Nat :=
  if item.tag ≠ .p then throw (.wrongTag .p item.tag)
  else do
    match ← number item.digits with
    | none => throw .widePrime
    | some p => if 5 ≤ p ∧ p % 2 = 1 then return p else throw .badPrime

/-- Every item counts as two tokens, its tag and its number. -/
def ofItems (items : List Item) : Option (Except TextFault MembershipProof) :=
  let tokens := 2 * items.length
  if tokens < 2 then return .error (.tokenCount tokens)
  else do
    let beyond ← difference? tokens 2
    if beyond % 8 ≠ 0 then return .error (.tokenCount tokens)
    else
      let n := beyond / 8
      let first ← items[0]?
      let runs ← slice? 1 items.length items
      let y ← slice? 0 n runs
      let z ← slice? n (2 * n) runs
      let s ← slice? (2 * n) (3 * n) runs
      let c ← slice? (3 * n) runs.length runs
      ExceptT.run do
        let p ← readPrime first
        let q := (p - 1) / 2
        return ⟨p, q, ← readRun .y p y, ← readRun .z p z, ← readRun .s q s, ← readRun .c q c⟩

def parse (text : List Char) : Option (Except TextFault MembershipProof) := do
  match ← split (byteLength text) text.length text with
  | .error fault => return .error fault
  | .ok items => ofItems items

def parseBytes (bytes : List UInt8) : Option (Except TextFault MembershipProof) :=
  match Utf8.decode bytes with
  | .ok text => parse text
  | .error fault => return .error (.notUtf8 fault)

end SecretTally.Position
