import Mathlib
import SecretTally.Proofs.Proof.Subgroup

/-! Exponents as operators on the subgroup. There sums of exponents become products, differences
become quotients, products become repeated powers, and only the class of an exponent modulo the
order counts. Off the subgroup not even sums become products. -/

noncomputable section
namespace SecretTally
namespace Element
variable {key : PublicKey} {x y : Element} {a b : Exponent}

section Laws
variable (hx : x.modulus = key.p) (hsub : key.InSubgroup x.value) (ha : a.modulus = key.q)
include hx hsub

theorem value_pow_ofNat (n : ℕ) :
    (x ^ Exponent.ofNat n key.q).value = x.value ^ n % key.p.value := by
  have horder := PublicKey.inSubgroup_iff.mp hsub
  rw [value_pow, hx, Exponent.value_ofNat, ← ZMod.natCast_eq_natCast_iff', Nat.cast_pow,
    Nat.cast_pow, ← pow_eq_pow_mod n horder]

include ha

protected theorem pow_add (b : Exponent) : x ^ (a + b) = x ^ a * x ^ b := by
  obtain ⟨u, rfl⟩ := hsub.exists_point hx
  rw [Point.element_pow, Point.element_pow, Point.element_pow, Point.element_mul,
    Exponent.toZMod_add ha, add_smul]

protected theorem pow_sub (b : Exponent) : x ^ (a - b) = x ^ a / x ^ b := by
  obtain ⟨u, rfl⟩ := hsub.exists_point hx
  rw [Point.element_pow, Point.element_pow, Point.element_pow, Point.element_div,
    Exponent.toZMod_sub ha, sub_smul]

protected theorem pow_mul (b : Exponent) : x ^ (a * b) = (x ^ a) ^ b := by
  obtain ⟨u, rfl⟩ := hsub.exists_point hx
  rw [Point.element_pow, Point.element_pow, Point.element_pow, Exponent.toZMod_mul ha, mul_comm,
    mul_smul]

theorem value_pow_neg_mul : (x ^ (-a) * x ^ a).value = 1 := by
  obtain ⟨u, rfl⟩ := hsub.exists_point hx
  rw [Point.element_pow, Point.element_pow, Point.element_mul, Exponent.toZMod_neg ha, ← add_smul,
    neg_add_cancel, zero_smul]
  exact Point.value_element_eq_one_iff.mpr rfl

end Laws

protected theorem mul_div_cancel (hp : key.p.value.Prime) (hx : x.modulus = key.p)
    (hy : y.modulus = key.p) (hpos : 0 < y.value) : x * y / y = x := by
  have : Fact key.p.value.Prime := ⟨hp⟩
  have hne : y.toZMod key.p ≠ 0 := natCast_ne_zero_of_lt hpos (hy ▸ y.value_lt)
  have hproduct : (x * y).modulus = key.p := hx
  have hquotient : (x * y / y).modulus = key.p := hx
  rw [← toZMod_inj hquotient hx, toZMod_div hproduct hne.isUnit, toZMod_mul hx,
    mul_inv_cancel_right₀ hne]

protected theorem pow_inj (hq : key.q.value.Prime) (hx : x.modulus = key.p)
    (hsub : key.InSubgroup x.value) (hone : x.value ≠ 1) (ha : a.modulus = key.q)
    (hb : b.modulus = key.q) : x ^ a = x ^ b ↔ a = b := by
  obtain ⟨u, rfl⟩ := hsub.exists_point hx
  have hu : u ≠ 0 := mt Point.value_element_eq_one_iff.mpr hone
  rw [Point.element_pow, Point.element_pow, Point.element_inj, Point.smul_inj hq hu,
    Exponent.toZMod_inj ha hb]

theorem inSubgroup_of_pow_add (hx : x.modulus = key.p)
    (h : ∀ a b : Exponent, a.modulus = key.q → b.modulus = key.q → x ^ (a + b) = x ^ a * x ^ b) :
    key.InSubgroup x.value := by
  have hthree := key.q.three_le
  let a := Exponent.ofNat (key.q.value - 1) key.q
  let b := Exponent.ofNat 1 key.q
  have ha : a.value = key.q.value - 1 := Nat.mod_eq_of_lt (Nat.sub_lt key.q.pos Nat.one_pos)
  have hb : b.value = 1 := Nat.mod_eq_of_lt (by omega)
  have hsum : (a + b).value = 0 := by
    rw [Exponent.value_add, ha, hb, Nat.sub_add_cancel key.q.pos]
    exact Nat.mod_self _
  have hpower : (x ^ a).modulus = key.p := hx
  have hclass := congrArg (toZMod key.p) (h a b rfl rfl)
  rw [toZMod_mul hpower, toZMod_pow hx, toZMod_pow hx, toZMod_pow hx, hsum, ha, hb, pow_zero,
    pow_one, pow_sub_one_mul key.q.pos.ne'] at hclass
  exact PublicKey.inSubgroup_iff.mpr hclass.symm

end Element

namespace PublicKey

/-- On the subgroup the operations on exponents are those on the powers, however the exponent was
reduced, and the subgroup is where the first law holds. With a prime order no two exponents have one
power, but for the neutral element; modulo a prime quotients undo products everywhere but at zero. -/
theorem exponents_act (key : PublicKey) :
    (∀ x : Element, x.modulus = key.p → key.InSubgroup x.value →
      (∀ a b : Exponent, a.modulus = key.q → b.modulus = key.q →
        x ^ (a + b) = x ^ a * x ^ b ∧ x ^ (a - b) = x ^ a / x ^ b ∧ x ^ (a * b) = (x ^ a) ^ b ∧
        (x ^ (-a) * x ^ a).value = 1 ∧
        (key.q.value.Prime → x.value ≠ 1 → (x ^ a = x ^ b ↔ a = b))) ∧
      ∀ n : ℕ, (x ^ Exponent.ofNat n key.q).value = x.value ^ n % key.p.value) ∧
    (∀ x : Element, x.modulus = key.p →
      (key.InSubgroup x.value ↔ ∀ a b : Exponent, a.modulus = key.q → b.modulus = key.q →
        x ^ (a + b) = x ^ a * x ^ b)) ∧
    (key.p.value.Prime → ∀ a b : Element, a.modulus = key.p → b.modulus = key.p → 0 < b.value →
      a * b / b = a) := by
  refine ⟨fun x hx hsub => ⟨fun a b ha hb => ?_, Element.value_pow_ofNat hx hsub⟩, fun x hx => ?_,
    fun hp a b ha hb hpos => Element.mul_div_cancel hp ha hb hpos⟩
  · exact ⟨Element.pow_add hx hsub ha b, Element.pow_sub hx hsub ha b, Element.pow_mul hx hsub ha b,
      Element.value_pow_neg_mul hx hsub ha, fun hq hone => Element.pow_inj hq hx hsub hone ha hb⟩
  · exact ⟨fun hsub a b ha _ => Element.pow_add hx hsub ha b, Element.inSubgroup_of_pow_add hx⟩

theorem exponents_act_small :
    let key := small
    let a := Exponent.ofNat 7 key.q
    let b := Exponent.ofNat 4 key.q
    let y : Element := ⟨key.p, 5, by decide⟩
    let z : Element := ⟨key.p, 22, by decide⟩
    (key.p.value.Prime ∧ key.q.value.Prime ∧ key.InSubgroup key.g.value ∧
      ¬ key.InSubgroup y.value ∧ ¬ key.InSubgroup z.value) ∧
    (a + b).value = 0 ∧ key.g ^ (a + b) = key.g ^ a * key.g ^ b ∧
    key.g ^ (b - a) = key.g ^ b / key.g ^ a ∧ key.g ^ (a * b) = (key.g ^ a) ^ b ∧
    (key.g ^ (-(a + b)) * key.g ^ (a + b)).value = 1 ∧ (key.g ^ a = key.g ^ b ↔ a = b) ∧
    (key.g ^ Exponent.ofNat 40 key.q).value = key.g.value ^ 40 % key.p.value ∧ y * z / z = y := by
  intro key a b y z
  have hp : key.p.value.Prime := by decide
  have hq : key.q.value.Prime := by decide
  have hg : key.InSubgroup key.g.value := by decide
  obtain ⟨hact, -, hcancel⟩ := exponents_act key
  obtain ⟨hlaws, hofNat⟩ := hact key.g rfl hg
  obtain ⟨hadd, -, hmul, -, hinj⟩ := hlaws a b rfl rfl
  obtain ⟨-, hsub, -, -, -⟩ := hlaws b a rfl rfl
  obtain ⟨-, -, -, hneg, -⟩ := hlaws (a + b) a rfl rfl
  exact ⟨⟨hp, hq, hg, by decide, by decide⟩, by decide, hadd, hsub, hmul, hneg, hinj hq (by decide),
    hofNat 40, hcancel hp y z rfl rfl (by decide)⟩

end PublicKey
end SecretTally

end
