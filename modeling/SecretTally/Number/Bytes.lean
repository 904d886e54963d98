/-! Integers written as byte strings, in either order. -/

namespace SecretTally.Bytes

def bigEndian (bytes : List UInt8) : Nat :=
  bytes.foldl (fun n b => 256 * n + b.toNat) 0

def littleEndian (bytes : List UInt8) : Nat :=
  bytes.foldr (fun b n => b.toNat + 256 * n) 0

def lowest (n : Nat) (bytes : List UInt8) : List UInt8 :=
  bytes.drop (bytes.length - n)

theorem lowest_of_length_le {n : Nat} {bytes : List UInt8} (h : bytes.length ≤ n) :
    lowest n bytes = bytes := by
  rw [lowest, Nat.sub_eq_zero_of_le h, List.drop_zero]

theorem bigEndian_append_one (bytes : List UInt8) (b : UInt8) :
    bigEndian (bytes ++ [b]) = 256 * bigEndian bytes + b.toNat := by
  simp [bigEndian]

end SecretTally.Bytes
