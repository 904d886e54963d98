import SecretTally.Number.Bytes
import SecretTally.Number.Decimal
import SecretTally.Residue.Modulus

/-! Exponents: integers modulo the order of the group, with their ring operations. An operation on
two exponents takes the modulus of the first. -/

namespace SecretTally

structure Exponent where
  modulus : Modulus
  value : Nat
  value_lt : value < modulus.value

namespace Exponent

theorem ext {a b : Exponent} (hm : a.modulus = b.modulus) (hv : a.value = b.value) : a = b := by
  cases a
  cases b
  cases hm
  cases hv
  rfl

theorem eq_iff {a b : Exponent} : a.modulus = b.modulus ∧ a.value = b.value ↔ a = b :=
  ⟨fun h => ext h.1 h.2, fun h => h ▸ ⟨rfl, rfl⟩⟩

instance : DecidableEq Exponent := fun _ _ => decidable_of_iff _ eq_iff

def ofNat (n : Nat) (q : Modulus) : Exponent := ⟨q, n % q.value, q.mod_lt n⟩

def zero (q : Modulus) : Exponent := ofNat 0 q

/-- Bytes as a big-endian integer, reduced. A string beyond the working width counts with its last
256 bytes only. -/
def ofBytes (bytes : List UInt8) (q : Modulus) : Exponent :=
  ofNat (Bytes.bigEndian (Bytes.lowest (Decimal.width / 8) bytes)) q

def bound (e : Exponent) : Nat := e.modulus.bits

protected def add (a b : Exponent) : Exponent := ofNat (a.value + b.value) a.modulus

protected def neg (a : Exponent) : Exponent := ofNat (a.modulus.value - a.value) a.modulus

protected def sub (a b : Exponent) : Exponent :=
  ofNat (a.value + (a.modulus.value - b.value % a.modulus.value)) a.modulus

protected def mul (a b : Exponent) : Exponent := ofNat (a.value * b.value) a.modulus

instance : Add Exponent := ⟨Exponent.add⟩
instance : Neg Exponent := ⟨Exponent.neg⟩
instance : Sub Exponent := ⟨Exponent.sub⟩
instance : Mul Exponent := ⟨Exponent.mul⟩

def select (choice : Bool) (a b : Exponent) : Exponent :=
  ofNat (if choice then b.value else a.value) a.modulus

@[simp] theorem value_ofNat (n : Nat) (q : Modulus) : (ofNat n q).value = n % q.value := rfl

@[simp] theorem modulus_ofNat (n : Nat) (q : Modulus) : (ofNat n q).modulus = q := rfl

theorem value_add (a b : Exponent) : (a + b).value = (a.value + b.value) % a.modulus.value := rfl

theorem value_neg (a : Exponent) : (-a).value = (a.modulus.value - a.value) % a.modulus.value := rfl

theorem value_mul (a b : Exponent) : (a * b).value = a.value * b.value % a.modulus.value := rfl

@[simp] theorem modulus_add (a b : Exponent) : (a + b).modulus = a.modulus := rfl

@[simp] theorem modulus_neg (a : Exponent) : (-a).modulus = a.modulus := rfl

@[simp] theorem modulus_sub (a b : Exponent) : (a - b).modulus = a.modulus := rfl

@[simp] theorem modulus_mul (a b : Exponent) : (a * b).modulus = a.modulus := rfl

theorem ofNat_value (e : Exponent) : ofNat e.value e.modulus = e :=
  ext rfl (Nat.mod_eq_of_lt e.value_lt)

end Exponent
end SecretTally
