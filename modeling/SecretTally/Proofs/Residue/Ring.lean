import Mathlib
import SecretTally.Proofs.Residue.Power

/-! Residues as elements of `ZMod`. On operands of one modulus the operations of exponents and of
elements are those of the ring, and the class of a residue determines it. -/

namespace SecretTally

theorem natCast_inj_of_lt {m a b : ℕ} (ha : a < m) (hb : b < m) : (a : ZMod m) = b ↔ a = b := by
  rw [ZMod.natCast_eq_natCast_iff', Nat.mod_eq_of_lt ha, Nat.mod_eq_of_lt hb]

theorem natCast_ne_zero_of_lt {m a : ℕ} (hpos : 0 < a) (hlt : a < m) : (a : ZMod m) ≠ 0 := by
  rw [Ne, ZMod.natCast_eq_zero_iff]
  exact Nat.not_dvd_of_pos_of_lt hpos hlt

theorem natCast_pow_eq_one_iff {m n k : ℕ} : (n : ZMod m) ^ k = 1 ↔ n ^ k ≡ 1 [MOD m] := by
  rw [← ZMod.natCast_eq_natCast_iff, Nat.cast_pow, Nat.cast_one]

instance (m : Modulus) : NeZero m.value := ⟨m.pos.ne'⟩

theorem natCast_eq_one_iff_of_lt {m : Modulus} {a : ℕ} (ha : a < m.value) :
    (a : ZMod m.value) = 1 ↔ a = 1 := by
  rw [← Nat.cast_one, natCast_inj_of_lt ha (Nat.lt_of_lt_of_le (by decide) m.three_le)]

theorem natCast_inverseMod {a m : ℕ} (hm : 0 < m) (h : a.Coprime m) :
    (inverseMod a m : ZMod m) = (a : ZMod m)⁻¹ := by
  have hrem : (m : ℤ) ∣ (a % m : ℕ) - 1 * a := by simp [Int.dvd_sub_self_of_emod_eq]
  have hspec : (m : ℤ) ∣ (Nat.gcd m (a % m) : ℕ) - bezout (m + 1) m 0 (a % m) 1 * a :=
    bezout_spec (by simp) hrem (Nat.lt_succ_of_lt (Nat.mod_lt a hm))
  have hgcd : Nat.gcd m (a % m) = 1 := by
    rw [Nat.gcd_comm, ← Nat.gcd_rec, Nat.gcd_comm]
    exact h
  have hpos : (0 : ℤ) < m := by exact_mod_cast hm
  have hcast : ((inverseMod a m : ℕ) : ℤ) = bezout (m + 1) m 0 (a % m) 1 % m :=
    Int.toNat_of_nonneg (Int.emod_nonneg _ hpos.ne')
  have hone : (inverseMod a m : ZMod m) * a = 1 := by
    have hdvd := (ZMod.intCast_zmod_eq_zero_iff_dvd _ m).mpr hspec
    rw [hgcd] at hdvd
    have hclass := congrArg (Int.cast : ℤ → ZMod m) hcast
    push_cast [ZMod.intCast_mod] at hdvd hclass
    rw [hclass]
    exact (sub_eq_zero.mp hdvd).symm
  have hunit : (a : ZMod m) * (a : ZMod m)⁻¹ = 1 := ZMod.coe_mul_inv_eq_one a h
  calc (inverseMod a m : ZMod m) = inverseMod a m * (a * (a : ZMod m)⁻¹) := by rw [hunit, mul_one]
    _ = (a : ZMod m)⁻¹ := by rw [← mul_assoc, hone, one_mul]

namespace Exponent

def toZMod (q : Modulus) (e : Exponent) : ZMod q.value := e.value

variable {q : Modulus} {a b : Exponent}

theorem toZMod_inj (ha : a.modulus = q) (hb : b.modulus = q) :
    a.toZMod q = b.toZMod q ↔ a = b := by
  subst ha
  refine ⟨fun h => ext hb.symm ?_, fun h => h ▸ rfl⟩
  exact (natCast_inj_of_lt a.value_lt (hb ▸ b.value_lt)).mp h

@[simp] theorem toZMod_ofNat (n : ℕ) (q : Modulus) : (ofNat n q).toZMod q = n := by
  simp [toZMod]

@[simp] theorem toZMod_zero (q : Modulus) : (zero q).toZMod q = 0 := by
  simp [zero]

@[simp] theorem modulus_zero (q : Modulus) : (zero q).modulus = q := rfl

theorem toZMod_add (h : a.modulus = q) : (a + b).toZMod q = a.toZMod q + b.toZMod q := by
  subst h
  simp [toZMod, value_add]

theorem toZMod_neg (h : a.modulus = q) : (-a).toZMod q = -a.toZMod q := by
  subst h
  simp [toZMod, value_neg, Nat.cast_sub a.value_lt.le]

theorem value_sub (a b : Exponent) :
    (a - b).value = (a.value + (a.modulus.value - b.value % a.modulus.value)) % a.modulus.value :=
  rfl

theorem toZMod_sub (h : a.modulus = q) : (a - b).toZMod q = a.toZMod q - b.toZMod q := by
  subst h
  simp [toZMod, value_sub, Nat.cast_sub (a.modulus.mod_lt b.value).le, sub_eq_add_neg]

theorem toZMod_mul (h : a.modulus = q) : (a * b).toZMod q = a.toZMod q * b.toZMod q := by
  subst h
  simp [toZMod, value_mul]

theorem add_comm_of_modulus_eq (h : a.modulus = b.modulus) : a + b = b + a :=
  ext h (by rw [value_add, value_add, h, Nat.add_comm])

end Exponent

namespace Element

def toZMod (p : Modulus) (x : Element) : ZMod p.value := x.value

variable {p : Modulus} {a b : Element}

theorem toZMod_inj (ha : a.modulus = p) (hb : b.modulus = p) :
    a.toZMod p = b.toZMod p ↔ a = b := by
  subst ha
  refine ⟨fun h => ext hb.symm ?_, fun h => h ▸ rfl⟩
  exact (natCast_inj_of_lt a.value_lt (hb ▸ b.value_lt)).mp h

theorem toZMod_mul (h : a.modulus = p) : (a * b).toZMod p = a.toZMod p * b.toZMod p := by
  subst h
  simp [toZMod, value_mul]

theorem mul_comm_of_modulus_eq (h : a.modulus = b.modulus) : a * b = b * a :=
  ext h (by rw [value_mul, value_mul, h, Nat.mul_comm])

theorem toZMod_pow (h : a.modulus = p) (e : Exponent) :
    (a ^ e).toZMod p = a.toZMod p ^ e.value := by
  subst h
  simp [toZMod, value_pow]

theorem toZMod_div (h : a.modulus = p) (hb : IsUnit (b.toZMod p)) :
    (a / b).toZMod p = a.toZMod p * (b.toZMod p)⁻¹ := by
  subst h
  have hcoprime := (ZMod.isUnit_iff_coprime b.value a.modulus.value).mp hb
  simp [toZMod, value_div, natCast_inverseMod a.modulus.pos hcoprime]

end Element
end SecretTally
