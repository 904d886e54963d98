import SecretTally.Hash.Sha1
import SecretTally.Proof.Basic

/-! The challenge of a proof: the digest of everything that the branches have to be fixed against,
written in decimal without separators, as a big-endian integer modulo the order. -/

namespace SecretTally

abbrev Digest := List UInt8 → List UInt8

/-- Proofs already in circulation were made with SHA-1; another digest would invalidate them. -/
def standardDigest : Digest := Sha1.digest

def Element.text (x : Element) : List Char := Decimal.print x.value

def Commitment.text (c : Commitment) : List Char := c.y.text ++ c.z.text

def commitmentText (g h : Element) (pair : Pair) (commitments : List Commitment) : List Char :=
  g.text ++ h.text ++ pair.pad.text ++ pair.data.text ++ commitments.flatMap Commitment.text

/-- The text holds digits only, so that every character is one byte. -/
def challengeOf (digest : Digest) (q : Modulus) (text : List Char) : Exponent :=
  Exponent.ofBytes (digest (text.map Char.toUInt8)) q

def PublicKey.challenge (key : PublicKey) (digest : Digest) (pair : Pair)
    (commitments : List Commitment) : Exponent :=
  challengeOf digest key.q (commitmentText key.g key.h pair commitments)

end SecretTally
