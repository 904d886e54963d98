import SecretTally.Proof.Basic
import SecretTally.Wire.Item

/-! The text of a proof: the prime, then the four lists one after the other, each number behind its
tag. The order is left out; it follows from the prime. -/

namespace SecretTally

def printRun (tag : Tag) (values : List Nat) : List Char :=
  values.flatMap fun v => tag.letter :: Decimal.print v

def MembershipProof.print (proof : MembershipProof) : List Char :=
  Tag.p.letter :: Decimal.print proof.p ++ printRun .y proof.y ++ printRun .z proof.z
    ++ printRun .s proof.s ++ printRun .c proof.c

end SecretTally
