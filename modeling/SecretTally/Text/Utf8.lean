/-! Text from bytes. Decoding stops at the first byte that continues no character, and reports
where the character it was in began and how many of its bytes were sound. -/

namespace SecretTally.Utf8

inductive Fault where
  | illFormed (count index : Nat)
  | incomplete (index : Nat)
deriving DecidableEq

def Fault.message : Fault → String
  | .illFormed count index => s!"invalid utf-8 sequence of {count} bytes from index {index}"
  | .incomplete index => s!"incomplete utf-8 byte sequence from index {index}"

structure Pending where
  seen : Nat
  owed : Nat
  low : UInt8
  high : UInt8
  code : Nat

/-- What the first byte of a character of two to four bytes asks for. The narrower ranges keep out
overlong forms, surrogates and anything beyond the last code point. -/
def Pending.ofLead? (b : UInt8) : Option Pending :=
  if 0xc2 ≤ b ∧ b ≤ 0xdf then some ⟨1, 1, 0x80, 0xbf, b.toNat - 0xc0⟩
  else if b = 0xe0 then some ⟨1, 2, 0xa0, 0xbf, 0⟩
  else if b = 0xed then some ⟨1, 2, 0x80, 0x9f, 0xd⟩
  else if 0xe1 ≤ b ∧ b ≤ 0xef then some ⟨1, 2, 0x80, 0xbf, b.toNat - 0xe0⟩
  else if b = 0xf0 then some ⟨1, 3, 0x90, 0xbf, 0⟩
  else if 0xf1 ≤ b ∧ b ≤ 0xf3 then some ⟨1, 3, 0x80, 0xbf, b.toNat - 0xf0⟩
  else if b = 0xf4 then some ⟨1, 3, 0x80, 0x8f, 4⟩
  else none

def decodeFrom : (index : Nat) → Option Pending → List UInt8 → Except Fault (List Char)
  | _, none, [] => .ok []
  | index, some _, [] => .error (.incomplete index)
  | index, none, b :: rest =>
    if b < 0x80 then (Char.ofNat b.toNat :: ·) <$> decodeFrom (index + 1) none rest
    else
      match Pending.ofLead? b with
      | none => .error (.illFormed 1 index)
      | some pending => decodeFrom index (some pending) rest
  | index, some p, b :: rest =>
    if p.low ≤ b ∧ b ≤ p.high then
      let code := 64 * p.code + (b.toNat - 0x80)
      if p.owed = 1 then (Char.ofNat code :: ·) <$> decodeFrom (index + p.seen + 1) none rest
      else decodeFrom index (some ⟨p.seen + 1, p.owed - 1, 0x80, 0xbf, code⟩) rest
    else .error (.illFormed p.seen index)

def decode (bytes : List UInt8) : Except Fault (List Char) := decodeFrom 0 none bytes

end SecretTally.Utf8
