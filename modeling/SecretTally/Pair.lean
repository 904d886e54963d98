import SecretTally.PublicKey

/-! Encryption pairs. The product of two pairs encrypts the sum of their plaintexts under the sum of
their randomness. -/

namespace SecretTally

structure Pair where
  pad : Element
  data : Element
deriving DecidableEq

namespace Pair

def encrypt (key : PublicKey) (m : Nat) (r : Exponent) : Pair :=
  ⟨key.g ^ r, key.h ^ r * key.encode m⟩

protected def mul (a b : Pair) : Pair := ⟨a.pad * b.pad, a.data * b.data⟩

instance : Mul Pair := ⟨Pair.mul⟩

@[simp] theorem pad_mul (a b : Pair) : (a * b).pad = a.pad * b.pad := rfl

@[simp] theorem data_mul (a b : Pair) : (a * b).data = a.data * b.data := rfl

def unblind (pair : Pair) (x : Exponent) : Element := pair.data / pair.pad ^ x

end Pair

def PublicKey.ownsPair (key : PublicKey) (pair : Pair) : Bool :=
  key.owns pair.pad && key.owns pair.data

end SecretTally
