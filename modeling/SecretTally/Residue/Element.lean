import SecretTally.Residue.Exponent
import SecretTally.Residue.Inverse
import SecretTally.Residue.Power

/-! Residues that are multiplied, divided and raised to exponents. Lifting an integer refuses zero;
a product can still be zero if the modulus is composite. -/

namespace SecretTally

structure Element where
  modulus : Modulus
  value : Nat
  value_lt : value < modulus.value

namespace Element

theorem ext {a b : Element} (hm : a.modulus = b.modulus) (hv : a.value = b.value) : a = b := by
  cases a
  cases b
  cases hm
  cases hv
  rfl

theorem eq_iff {a b : Element} : a.modulus = b.modulus ∧ a.value = b.value ↔ a = b :=
  ⟨fun h => ext h.1 h.2, fun h => h ▸ ⟨rfl, rfl⟩⟩

instance : DecidableEq Element := fun _ _ => decidable_of_iff _ eq_iff

/-- Refuses zero and anything not below the modulus. -/
def ofNat? (n : Nat) (m : Modulus) : Option Element :=
  if h : 0 < n ∧ n < m.value then some ⟨m, n, h.2⟩ else none

def reduce (n : Nat) (m : Modulus) : Element := ⟨m, n % m.value, m.mod_lt n⟩

protected def mul (a b : Element) : Element := reduce (a.value * b.value) a.modulus

protected def div (a b : Element) : Element :=
  reduce (a.value * inverseMod b.value a.modulus.value) a.modulus

/-- The scan runs over the bit length of the exponent's modulus, whatever the exponent is. -/
protected def pow (a : Element) (e : Exponent) : Element :=
  ⟨a.modulus, powerLow a.modulus.value e.bound a.value e.value, powerLow_lt a.modulus.pos ..⟩

instance : Mul Element := ⟨Element.mul⟩
instance : Div Element := ⟨Element.div⟩
instance : HPow Element Exponent Element := ⟨Element.pow⟩

def select (choice : Bool) (a b : Element) : Element :=
  reduce (if choice then b.value else a.value) a.modulus

theorem value_mul (a b : Element) : (a * b).value = a.value * b.value % a.modulus.value := rfl

theorem value_div (a b : Element) :
    (a / b).value = a.value * inverseMod b.value a.modulus.value % a.modulus.value := rfl

@[simp] theorem modulus_mul (a b : Element) : (a * b).modulus = a.modulus := rfl

@[simp] theorem modulus_div (a b : Element) : (a / b).modulus = a.modulus := rfl

@[simp] theorem modulus_pow (a : Element) (e : Exponent) : (a ^ e).modulus = a.modulus := rfl

end Element
end SecretTally
