import Mathlib
import SecretTally.Proofs.Proof.Check
import SecretTally.Proofs.Proof.Commitment

/-! What an accepted proof says about the subgroup. Since `p` is `2 * q + 1`, a pair may be off the
subgroup by a sign, and a branch shows the sign only if the exponent that its share gives the pair
is odd. Acceptance alone therefore does not place a pair in the subgroup. -/

noncomputable section
namespace SecretTally

def PublicKey.InSubgroup (key : PublicKey) (n : ℕ) : Prop :=
  n ^ key.q.value ≡ 1 [MOD key.p.value]

instance (key : PublicKey) (n : ℕ) : Decidable (key.InSubgroup n) :=
  inferInstanceAs (Decidable (_ ≡ _ [MOD _]))

variable {key : PublicKey} {x : Element} {pair : Pair} {a : Answer} {d : ℕ}

namespace PublicKey

theorem inSubgroup_iff {n : ℕ} : key.InSubgroup n ↔ (n : ZMod key.p.value) ^ key.q.value = 1 :=
  natCast_pow_eq_one_iff.symm

theorem InSubgroup.exists_point (h : key.InSubgroup x.value) (hx : x.modulus = key.p) :
    ∃ u : Point key, u.element = x :=
  ⟨.ofElement x (inSubgroup_iff.mp h), Point.element_ofElement hx _⟩

theorem exists_points (howns : key.ownsPair pair = true) (hpad : key.InSubgroup pair.pad.value)
    (hdata : key.InSubgroup pair.data.value) :
    ∃ pad data : Point key, pair = ⟨pad.element, data.element⟩ := by
  obtain ⟨hpadModulus, hdataModulus⟩ := ownsPair_iff.mp howns
  obtain ⟨pad, hpadEq⟩ := hpad.exists_point hpadModulus
  obtain ⟨data, hdataEq⟩ := hdata.exists_point hdataModulus
  exact ⟨pad, data, by rw [hpadEq, hdataEq]⟩

theorem p_eq (key : PublicKey) : key.p.value = 2 * key.q.value + 1 := by
  have hodd := key.p.odd
  have hhalf := key.half
  omega

theorem pow_order_sq (hp : key.p.value.Prime) (hm : x.modulus = key.p) (hx : 0 < x.value) :
    (x.toZMod key.p ^ key.q.value) ^ 2 = 1 := by
  have : Fact key.p.value.Prime := ⟨hp⟩
  have hne : x.toZMod key.p ≠ 0 := natCast_ne_zero_of_lt hx (hm ▸ x.value_lt)
  have hexp : key.p.value - 1 = key.q.value * 2 := by
    have hdouble := p_eq key
    omega
  have hfermat := ZMod.pow_card_sub_one_eq_one hne
  rwa [hexp, pow_mul] at hfermat

theorem inSubgroup_pair_iff (hp : key.p.value.Prime) (hq : key.q.value.Prime)
    (hpair : key.ownsPair pair = true) :
    key.InSubgroup pair.pad.value ∧ key.InSubgroup pair.data.value ↔
      ∃ m r, r.modulus = key.q ∧ pair = Pair.encrypt key m r := by
  constructor
  · rintro ⟨hpad, hdata⟩
    obtain ⟨pad, data, rfl⟩ := exists_points hpair hpad hdata
    obtain ⟨c, hc⟩ := Point.exists_smul_eq hq (Point.ofElement_ne_zero key.isGenerator_g) hp pad
    obtain ⟨e, he⟩ := Point.exists_smul_eq hq (Point.ofElement_ne_zero key.isGenerator_f) hp
      (data - c • key.hPoint)
    refine ⟨e.val, .ofNat c.val key.q, rfl, ?_⟩
    rw [Pair.encrypt_eq, Exponent.toZMod_ofNat, ZMod.natCast_zmod_val, ZMod.natCast_zmod_val,
      gPoint, fPoint, hc, he, add_sub_cancel]
  · rintro ⟨m, r, _, rfl⟩
    rw [Pair.encrypt_eq, inSubgroup_iff, inSubgroup_iff]
    exact ⟨Point.element_pow_order _, Point.element_pow_order _⟩

end PublicKey

theorem generator_pow_mul_pow_order {x u : Element} (hx : IsGenerator key.p key.q x)
    (hu : u.modulus = key.p) (s e : Exponent) :
    (x ^ s * u ^ e).toZMod key.p ^ key.q.value = (u.toZMod key.p ^ key.q.value) ^ e.value := by
  have hpower : (x ^ s).modulus = key.p := hx.modulus_eq
  rw [Element.toZMod_mul hpower, Element.toZMod_pow hu, Element.toZMod_pow hx.modulus_eq, mul_pow,
    pow_right_comm, hx.pow_order, one_pow, one_mul, pow_right_comm]

theorem div_encode_pow_order (hx : x.modulus = key.p) (d : ℕ) :
    (x / key.encode d).toZMod key.p ^ key.q.value = x.toZMod key.p ^ key.q.value := by
  rw [PublicKey.encode_eq, Element.toZMod_div hx (by simp), Point.toZMod_element,
    ZMod.inv_coe_unit, mul_pow, ← Point.unit_neg, ← Units.val_pow_eq_pow_val,
    Point.unit_pow_order, Units.val_one, mul_one]

theorem commitment_y_pow_order (hm : pair.pad.modulus = key.p) :
    (a.commitment key pair d).y.toZMod key.p ^ key.q.value =
      (pair.pad.toZMod key.p ^ key.q.value) ^ (-a.c).value :=
  generator_pow_mul_pow_order key.isGenerator_g hm a.s (-a.c)

theorem commitment_z_pow_order (hm : pair.data.modulus = key.p) :
    (a.commitment key pair d).z.toZMod key.p ^ key.q.value =
      (pair.data.toZMod key.p ^ key.q.value) ^ (-a.c).value := by
  have hquotient : (pair.data / key.encode d).modulus = key.p := hm
  rw [← div_encode_pow_order hm d]
  exact generator_pow_mul_pow_order key.isGenerator_h hquotient a.s (-a.c)

theorem even_value_neg_iff {q : Modulus} {c : ℕ} (hc : c < q.value) :
    Even (-Exponent.ofNat c q).value ↔ c = 0 ∨ Odd c := by
  have hodd := q.odd
  rw [Exponent.value_neg, Exponent.modulus_ofNat, Exponent.value_ofNat, Nat.mod_eq_of_lt hc]
  rcases Nat.eq_zero_or_pos c with rfl | hpos
  · simp
  · rw [Nat.mod_eq_of_lt (Nat.sub_lt q.pos hpos), Nat.even_iff, Nat.odd_iff]
    omega

/-- A power of a sign hides the sign if its exponent is even. -/
theorem inSubgroup_iff_of_pow_eq (hp : key.p.value.Prime) (hm : x.modulus = key.p)
    (hx : 0 < x.value) {n e : ℕ}
    (h : (n : ZMod key.p.value) ^ key.q.value = (x.toZMod key.p ^ key.q.value) ^ e) :
    key.InSubgroup n ↔ Even e ∨ key.InSubgroup x.value := by
  have hsq := PublicKey.pow_order_sq hp hm hx
  rw [PublicKey.inSubgroup_iff, PublicKey.inSubgroup_iff, h]
  change _ ↔ _ ∨ x.toZMod key.p ^ key.q.value = 1
  rcases Nat.even_or_odd' e with ⟨k, rfl | rfl⟩
  · simp [pow_mul, hsq]
  · simp [pow_succ, pow_mul, hsq]

namespace MembershipProof
variable {proof : MembershipProof} {digest : Digest} {domain : Domain}

/-- The commitments of an accepted proof show the sign of the pair at the branches whose share is
even and not zero. Elsewhere they are in the subgroup whatever the pair is. -/
theorem check_inSubgroup (hp : key.p.value.Prime) (hq : key.q.value.Prime)
    (hpad : 0 < pair.pad.value) (hdata : 0 < pair.data.value)
    (haccept : proof.check digest key pair domain = .ok true) :
    (∀ i c : ℕ, proof.c[i]? = some c → ∃ y z : ℕ, proof.y[i]? = some y ∧ proof.z[i]? = some z ∧
      (key.InSubgroup y ↔ (c = 0 ∨ Odd c) ∨ key.InSubgroup pair.pad.value) ∧
      (key.InSubgroup z ↔ (c = 0 ∨ Odd c) ∨ key.InSubgroup pair.data.value)) ∧
    (key.InSubgroup pair.pad.value ∧ key.InSubgroup pair.data.value ↔
      ∃ m r, r.modulus = key.q ∧ pair = Pair.encrypt key m r) := by
  obtain ⟨-, howns, hholds⟩ := check_eq_ok_true_iff.mp haccept
  have hmodulus := PublicKey.ownsPair_iff.mp howns
  refine ⟨?_, PublicKey.inSubgroup_pair_iff hp hq howns⟩
  intro i c hc
  obtain ⟨d, s, -, -, k, rfl, hy, hz⟩ := hholds.exists_branch hc
  have hlt : c < key.q.value := hholds.shape.c_lt c (List.mem_of_getElem? hc)
  have horderY := commitment_y_pow_order (a := ⟨.ofNat s key.q, .ofNat c key.q⟩) (d := d)
    hmodulus.1
  have horderZ := commitment_z_pow_order (a := ⟨.ofNat s key.q, .ofNat c key.q⟩) (d := d)
    hmodulus.2
  refine ⟨_, _, hy, hz, ?_, ?_⟩
  · rw [← even_value_neg_iff hlt]
    exact inSubgroup_iff_of_pow_eq hp hmodulus.1 hpad horderY
  · rw [← even_value_neg_iff hlt]
    exact inSubgroup_iff_of_pow_eq hp hmodulus.2 hdata horderZ

theorem check_inSubgroup_sixteen :
    let key := PublicKey.small
    let pair := Pair.encrypt key 16 (.ofNat 7 key.q)
    let proof : MembershipProof := ⟨23, 11, [2, 6, 18], [2, 2, 3], [1, 1, 1], [4, 5, 6]⟩
    proof.check standardDigest key pair ⟨[0, 5, 16], by decide, by decide⟩ = .ok true ∧
    ∃ y z : ℕ, proof.y[0]? = some y ∧ proof.z[0]? = some z ∧
      (key.InSubgroup y ↔ (4 = 0 ∨ Odd 4) ∨ key.InSubgroup pair.pad.value) ∧
      (key.InSubgroup z ↔ (4 = 0 ∨ Odd 4) ∨ key.InSubgroup pair.data.value) := by
  intro key pair proof
  have haccept : proof.check standardDigest key pair ⟨[0, 5, 16], by decide, by decide⟩ =
      .ok true := by decide +kernel
  exact ⟨haccept, (check_inSubgroup (by decide) (by decide) (by decide) (by decide)
    haccept).1 0 4 rfl⟩

/-- The data is the negative of `h ^ 3 * f`, and both shares are odd. -/
theorem check_of_notMem_subgroup :
    ¬ ∀ (key : PublicKey) (pair : Pair) (proof : MembershipProof) (domain : Domain),
      key.p.value.Prime → key.q.value.Prime → 0 < pair.pad.value → 0 < pair.data.value →
      0 < proof.size → proof.check standardDigest key pair domain = .ok true →
      key.InSubgroup pair.pad.value ∧ key.InSubgroup pair.data.value := by
  intro hall
  let pair : Pair := ⟨⟨PublicKey.small.p, 18, by decide⟩, ⟨PublicKey.small.p, 5, by decide⟩⟩
  let proof : MembershipProof := ⟨23, 11, [16, 9], [16, 8], [0, 0], [3, 1]⟩
  have hdata := (hall .small pair proof ⟨[0, 1], by decide, by decide⟩ (by decide) (by decide)
    (by decide) (by decide) (by decide) (by decide +kernel)).2
  exact absurd hdata (by decide +kernel)

end MembershipProof

end SecretTally

end
