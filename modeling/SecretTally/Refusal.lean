import SecretTally.Text.Quoted
import SecretTally.Text.Utf8
import SecretTally.Wire.Tag

/-! The reasons for which an operation is refused, and their wording. A proof that merely fails to
hold is no refusal: checking it answers false. -/

namespace SecretTally

/-- Why a text is not the text of a proof. Offsets count bytes; items are counted as two tokens,
the tag and the number. -/
inductive TextFault where
  | notUtf8 (fault : Utf8.Fault)
  | noTag (offset : Nat) (found : Char)
  | noValue (tag : Tag) (offset : Nat)
  | tokenCount (tokens : Nat)
  | wrongTag (expected found : Tag)
  | wideValue (digits : List Char)
  | outOfRange (tag : Tag)
  | widePrime
  | badPrime
deriving DecidableEq

inductive KeyFault where
  | notSafePrime
  | evenPrime
  | evenOrder
  | outsideGroup
  | identity
  | outsideSubgroup
deriving DecidableEq

inductive DomainFault where
  | empty
  | notIncreasing
  | reversedRange
  | wideRange
  | overflow
deriving DecidableEq

inductive SumFault where
  | proofLength
  | plaintextOutside
  | sizes
deriving DecidableEq

inductive Refusal where
  | malformedText (fault : TextFault)
  | absentValue (value : Nat)
  | foreignGroup
  | badKey (fault : KeyFault)
  | badDomain (fault : DomainFault)
  | badSum (fault : SumFault)
deriving DecidableEq

def TextFault.message : TextFault → String
  | .notUtf8 fault => "payload is not valid UTF-8: " ++ fault.message
  | .noTag offset found => s!"expected a tag at offset {offset}, found " ++ Text.quoted found
  | .noValue tag offset => "tag `" ++ tag.letter.toString ++ s!"` at offset {offset} has no value"
  | .tokenCount tokens => s!"number of tokens ({tokens}) is not of the form 8k + 2"
  | .wrongTag expected found =>
    "expected token: `" ++ expected.letter.toString ++ "`, found `" ++ found.letter.toString ++ "`"
  | .wideValue digits => "value `" ++ String.ofList digits ++ "` is too large"
  | .outOfRange tag => "`" ++ tag.letter.toString ++ "` value is out of range"
  | .widePrime => "prime is too large"
  | .badPrime => "prime must be odd and at least 5"

def KeyFault.message : KeyFault → String
  | .notSafePrime => "p is not a safe prime"
  | .evenPrime => "p is not odd"
  | .evenOrder => "q is not odd"
  | .outsideGroup => "generator is not in [1, p)"
  | .identity => "generator is the identity"
  | .outsideSubgroup => "generator is outside the order-q subgroup"

def DomainFault.message : DomainFault → String
  | .empty => "domain is empty"
  | .notIncreasing => "domain is not strictly increasing"
  | .reversedRange => "range minimum exceeds maximum"
  | .wideRange => "range is too wide"
  | .overflow => "sum of domains overflows"

def SumFault.message : SumFault → String
  | .proofLength => "proof length differs from its domain"
  | .plaintextOutside => "combined plaintext is outside the merged domain"
  | .sizes => "ciphertext sizes differ"

def Refusal.message : Refusal → String
  | .malformedText fault => "malformed proof text: " ++ fault.message
  | .absentValue value => s!"value {value} does not occur in the domain"
  | .foreignGroup => "group parameters of the proof or ciphertext do not match the public key"
  | .badKey fault => "invalid public key: " ++ fault.message
  | .badDomain fault => "invalid domain: " ++ fault.message
  | .badSum fault => "operands cannot be combined: " ++ fault.message

end SecretTally
