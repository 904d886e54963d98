import Mathlib
import SecretTally.Proofs.Proof.Acceptance
import SecretTally.Proofs.Proof.Subgroup

/-! What an accepted proof is tied to. Neither the domain nor the pair can be exchanged, because every
branch with a share other than zero pins them by its equations; the hash takes no part in this. A
branch with share zero pins nothing, since the pair drops out of its commitments. -/

noncomputable section
namespace SecretTally

namespace Point
variable {key : PublicKey} {u v : Point key}

theorem unit_pow_eq_iff (hq : key.q.value.Prime) (hu : u ≠ 0) {a b : ℕ} :
    u.unit ^ a = u.unit ^ b ↔ a ≡ b [MOD key.q.value] := by
  rw [← unit_nsmul, ← unit_nsmul, unit_injective.eq_iff, ← Nat.cast_smul_eq_nsmul (ZMod key.q.value),
    ← Nat.cast_smul_eq_nsmul (ZMod key.q.value), smul_inj hq hu, ZMod.natCast_eq_natCast_iff]

theorem smul_left_inj (hq : key.q.value.Prime) {c : ZMod key.q.value} (hc : c ≠ 0) :
    c • u = c • v ↔ u = v := by
  have : Fact key.q.value.Prime := ⟨hq⟩
  exact (smul_right_injective (Point key) hc).eq_iff

theorem add_smul_fPoint_ne (hq : key.q.value.Prime) (u : Point key) {m : ℕ}
    (hm : ¬ m ≡ 0 [MOD key.q.value]) : u + (m : ZMod key.q.value) • key.fPoint ≠ u := by
  intro h
  have hzero : (m : ZMod key.q.value) • key.fPoint = (0 : ZMod key.q.value) • key.fPoint := by
    rwa [add_eq_left, ← zero_smul (ZMod key.q.value) key.fPoint] at h
  apply hm
  rw [← ZMod.natCast_eq_natCast_iff, Nat.cast_zero]
  exact (PublicKey.smul_fPoint_inj hq).mp hzero

end Point

namespace PublicKey
variable (key : PublicKey)

theorem natCast_g : (key.g.value : ZMod key.p.value) = key.gPoint.unit := by
  rw [← Point.toZMod_element, ← g_eq]
  rfl

theorem natCast_f : (key.f.value : ZMod key.p.value) = key.fPoint.unit := by
  rw [← Point.toZMod_element, ← f_eq]
  rfl

theorem element_mul_encode (data : Point key) (m : ℕ) :
    data.element * key.encode m = (data + (m : ZMod key.q.value) • key.fPoint).element := by
  rw [encode_eq, Point.element_mul]

end PublicKey

theorem coprime_neg_share {q c : ℕ} (hq : q.Prime) (hc : c ≠ 0) (hlt : c < q) :
    q.gcd ((q - c) % q) = 1 := by
  have hpos : 0 < q - c := Nat.sub_pos_of_lt hlt
  have hdiff : q - c < q := Nat.sub_lt hq.pos (Nat.pos_of_ne_zero hc)
  rw [Nat.mod_eq_of_lt hdiff]
  exact (Nat.Prime.coprime_iff_not_dvd hq).mpr (Nat.not_dvd_of_pos_of_lt hpos hdiff)

namespace MembershipProof.BranchSatisfies
variable {key : PublicKey} {pair : Pair} {d d' y y' z z' s s' c : ℕ}
  (hp : key.p.value.Prime) (hq : key.q.value.Prime) (h : BranchSatisfies key pair d y z s c)
include hp hq h

theorem response_modEq (h' : BranchSatisfies key pair d' y z' s' c)
    (hy : (y : ZMod key.p.value) ≠ 0) : s' ≡ s [MOD key.q.value] := by
  have : Fact key.p.value.Prime := ⟨hp⟩
  have hpower : (pair.pad.value : ZMod key.p.value) ^ ((key.q.value - c) % key.q.value) ≠ 0 :=
    right_ne_zero_of_mul (h.y_eq ▸ hy)
  have hg : (key.g.value : ZMod key.p.value) ^ s' = key.g.value ^ s :=
    mul_right_cancel₀ hpower (h'.y_eq.symm.trans h.y_eq)
  rw [PublicKey.natCast_g] at hg
  norm_cast at hg
  exact (Point.unit_pow_eq_iff hq (Point.ofElement_ne_zero key.isGenerator_g)).mp hg

theorem value_modEq (h' : BranchSatisfies key pair d' y' z s c) (hz : (z : ZMod key.p.value) ≠ 0)
    (hc : c ≠ 0) (hlt : c < key.q.value) : d' ≡ d [MOD key.q.value] := by
  have : Fact key.p.value.Prime := ⟨hp⟩
  have hzd := h.z_eq
  have hzd' := h'.z_eq
  rw [mul_pow] at hzd hzd'
  have hblinding : (key.h.value : ZMod key.p.value) ^ s ≠ 0 := left_ne_zero_of_mul (hzd ▸ hz)
  have hpower : (pair.data.value : ZMod key.p.value) ^ ((key.q.value - c) % key.q.value) ≠ 0 :=
    left_ne_zero_of_mul (right_ne_zero_of_mul (hzd ▸ hz))
  have hf : (((key.f.value : ZMod key.p.value) ^ d')⁻¹) ^ ((key.q.value - c) % key.q.value) =
      (((key.f.value : ZMod key.p.value) ^ d)⁻¹) ^ ((key.q.value - c) % key.q.value) :=
    mul_left_cancel₀ hpower (mul_left_cancel₀ hblinding (hzd'.symm.trans hzd))
  rw [inv_pow, inv_pow, inv_inj, ← pow_mul, ← pow_mul, PublicKey.natCast_f] at hf
  norm_cast at hf
  have hproduct := (Point.unit_pow_eq_iff hq (Point.ofElement_ne_zero key.isGenerator_f)).mp hf
  exact hproduct.cancel_right_of_coprime (coprime_neg_share hq hc hlt)

end MembershipProof.BranchSatisfies

namespace Answer
variable {key : PublicKey} {d d' s c : ℕ}

theorem commitment_congr (pair : Pair) (s : Exponent) (h : c = 0 ∨ d' ≡ d [MOD key.q.value]) :
    (Answer.mk s (.ofNat c key.q)).commitment key pair d' =
      (Answer.mk s (.ofNat c key.q)).commitment key pair d := by
  rcases h with rfl | hmod
  · have hpower : ∀ x : Element, x.modulus = pair.data.modulus →
        (x ^ (-Exponent.ofNat 0 key.q)).value = 1 % pair.data.modulus.value := by
      intro x hx
      rw [Element.value_pow, hx, Exponent.value_neg]
      simp
    have hsame : (pair.data / key.encode d') ^ (-Exponent.ofNat 0 key.q) =
        (pair.data / key.encode d) ^ (-Exponent.ofNat 0 key.q) :=
      Element.ext rfl ((hpower (pair.data / key.encode d') rfl).trans
        (hpower (pair.data / key.encode d) rfl).symm)
    rw [commitment, commitment, hsame]
  · have hexponent : Exponent.ofNat d' key.q = Exponent.ofNat d key.q := Exponent.ext rfl hmod
    have hencode : key.encode d' = key.encode d := by
      unfold PublicKey.encode
      rw [hexponent]
    rw [commitment, commitment, hencode]

theorem pair_eq_of_commitment (hq : key.q.value.Prime) {a : Answer} (ha : a.InRing key.q)
    (hc : a.c.toZMod key.q ≠ 0) {pad data pad' data' : Point key}
    (hy : (a.commitment key ⟨pad'.element, data'.element⟩ d).y.value =
      (a.commitment key ⟨pad.element, data.element⟩ d).y.value)
    (hz : (a.commitment key ⟨pad'.element, data'.element⟩ d).z.value =
      (a.commitment key ⟨pad.element, data.element⟩ d).z.value) : pad' = pad ∧ data' = data := by
  rw [commitment_eq ha, commitment_eq ha, Point.value_element_inj, sub_right_inj,
    Point.smul_left_inj hq hc] at hy hz
  exact ⟨hy, sub_left_injective hz⟩

end Answer

namespace MembershipProof
variable {proof : MembershipProof} {digest : Digest} {key : PublicKey} {pair : Pair}
  {domain other : Domain}

/-- The other domain is long enough, and has the value of the domain, up to the order, at every branch
with a share other than zero. -/
structure Transfers (proof : MembershipProof) (key : PublicKey) (domain other : Domain) : Prop where
  covered : proof.size ≤ other.size
  value_modEq : ∀ i c d d' : ℕ, proof.c[i]? = some c → domain.values[i]? = some d →
    other.values[i]? = some d' → c = 0 ∨ d' ≡ d [MOD key.q.value]

theorem Holds.transfers (hp : key.p.value.Prime) (hq : key.q.value.Prime)
    (howns : key.ownsPair pair = true) (h : proof.Holds digest key pair domain)
    (h' : proof.Holds digest key pair other) : proof.Transfers key domain other := by
  obtain ⟨hpad, hdata⟩ := PublicKey.ownsPair_iff.mp howns
  refine ⟨h'.shape.covered, fun i c d d' hc hd hd' => ?_⟩
  have hi : i < proof.size := (List.getElem?_eq_some_iff.mp hc).1
  obtain ⟨_, y, z, s, _, -, hy, hz, hs, -, -⟩ := h.exists_branchSatisfies hpad hdata hi
  have hbranch := h.branchSatisfies hpad hdata hd hy hz hs hc
  have hbranch' := h'.branchSatisfies hpad hdata hd' hy hz hs hc
  have hrange := h.shape.z_range z (List.mem_of_getElem? hz)
  have hclass : (z : ZMod key.p.value) ≠ 0 := natCast_ne_zero_of_lt hrange.1 hrange.2
  have hlt : c < key.q.value := h.shape.c_lt c (List.mem_of_getElem? hc)
  rcases eq_or_ne c 0 with hzero | hne
  · exact .inl hzero
  · exact .inr (hbranch.value_modEq hp hq hbranch' hclass hne hlt)

theorem WellShaped.over (h : proof.WellShaped key domain) (hcovered : proof.size ≤ other.size) :
    proof.WellShaped key other :=
  { h with covered := hcovered }

theorem commitments_congr (h : proof.WellShaped key domain)
    (htransfers : proof.Transfers key domain other) (pair : Pair) :
    proof.commitments key pair other = proof.commitments key pair domain := by
  have hlength : (proof.commitments key pair other).length =
      (proof.commitments key pair domain).length := by
    rw [h.length_commitments, (h.over htransfers.covered).length_commitments]
  apply List.ext_getElem hlength
  intro i hi hi'
  obtain ⟨d', s, c, hd', hs, hc, hk'⟩ :=
    getElem?_commitments.mp (List.getElem?_eq_getElem hi)
  obtain ⟨d, s', c', hd, hs', hc', hk⟩ :=
    getElem?_commitments.mp (List.getElem?_eq_getElem hi')
  cases hs.symm.trans hs'
  cases hc.symm.trans hc'
  rw [← hk, ← hk']
  exact Answer.commitment_congr pair _ (htransfers.value_modEq i c d d' hc hd hd')

theorem Holds.over (h : proof.Holds digest key pair domain)
    (htransfers : proof.Transfers key domain other) : proof.Holds digest key pair other := by
  refine ⟨h.shape.over htransfers.covered, ?_, ?_, ?_⟩ <;> rw [commitments_congr h.shape htransfers]
  · exact h.y_eq
  · exact h.z_eq
  · exact h.total_eq

open scoped Classical in
/-- Over another domain a proof is accepted exactly if it transfers. -/
theorem check_other_domain (hp : key.p.value.Prime) (hq : key.q.value.Prime)
    (haccept : proof.check digest key pair domain = .ok true) (other : Domain) :
    proof.check digest key pair other = .ok (decide (proof.Transfers key domain other)) := by
  obtain ⟨hmatch, howns, hholds⟩ := check_eq_ok_true_iff.mp haccept
  rw [check_of_matches hmatch howns, Except.ok.injEq, Bool.eq_iff_iff, decide_eq_true_eq, holds_iff]
  exact ⟨hholds.transfers hp hq howns, hholds.over⟩

/-- The pair is off the subgroup and the second share is zero, so that only the first and the third
value are pinned, up to multiples of eleven. -/
theorem check_other_domain_forty :
    let key := PublicKey.small
    let pair : Pair := ⟨⟨key.p, 22, by decide⟩, ⟨key.p, 5, by decide⟩⟩
    let proof : MembershipProof := ⟨23, 11, [22, 1, 5], [17, 1, 22], [0, 0, 3], [4, 0, 6]⟩
    let domain : Domain := ⟨[0, 1, 5], by decide, by decide⟩
    let far : Domain := ⟨[11, 40, 49, 60], by decide, by decide⟩
    let near : Domain := ⟨[0, 1, 6], by decide, by decide⟩
    key.p.value.Prime ∧ key.q.value.Prime ∧ ¬ key.InSubgroup pair.pad.value ∧
      proof.check standardDigest key pair domain = .ok true ∧
      proof.check standardDigest key pair far = .ok true ∧
      proof.check standardDigest key pair near = .ok false := by
  classical
  intro key pair proof domain far near
  have hp : key.p.value.Prime := by decide
  have hq : key.q.value.Prime := by decide
  have haccept : proof.check standardDigest key pair domain = .ok true := by decide +kernel
  have hfar : proof.Transfers key domain far := by
    refine ⟨by decide, fun i c d d' hc hd hd' => ?_⟩
    have hi : i < 3 := (List.getElem?_eq_some_iff.mp hc).1
    interval_cases i <;> cases hc <;> cases hd <;> cases hd' <;> decide
  have hnear : ¬ proof.Transfers key domain near := fun h =>
    absurd (h.value_modEq 2 6 5 6 rfl rfl rfl) (by decide)
  refine ⟨hp, hq, by decide, haccept, ?_, ?_⟩
  · rw [check_other_domain hp hq haccept far, decide_eq_true hfar]
  · rw [check_other_domain hp hq haccept near, decide_eq_false hnear]

theorem Holds.pair_eq {digest' : Digest} (hq : key.q.value.Prime)
    (hshare : ∃ c ∈ proof.c, c ≠ 0) {pad data pad' data' : Point key}
    (h : proof.Holds digest key ⟨pad.element, data.element⟩ domain)
    (h' : proof.Holds digest' key ⟨pad'.element, data'.element⟩ domain) :
    pad' = pad ∧ data' = data := by
  obtain ⟨c, hmem, hne⟩ := hshare
  obtain ⟨i, hc⟩ := List.mem_iff_getElem?.mp hmem
  obtain ⟨d, s, hd, hs, k, rfl, hy, hz⟩ := h.exists_branch hc
  obtain ⟨d', s', hd', hs', k', rfl, hy', hz'⟩ := h'.exists_branch hc
  cases hd.symm.trans hd'
  cases hs.symm.trans hs'
  have hring : (Answer.mk (.ofNat s key.q) (.ofNat c key.q)).InRing key.q := ⟨rfl, rfl⟩
  have hclass : (Exponent.ofNat c key.q).toZMod key.q ≠ 0 := by
    rw [Exponent.toZMod_ofNat]
    exact natCast_ne_zero_of_lt (Nat.pos_of_ne_zero hne) (h.shape.c_lt c hmem)
  exact Answer.pair_eq_of_commitment hq hring hclass (Option.some.inj (hy'.symm.trans hy))
    (Option.some.inj (hz'.symm.trans hz))

section OtherPair
variable {digest' : Digest} {pair' : Pair} (hq : key.q.value.Prime) (hshare : ∃ c ∈ proof.c, c ≠ 0)
  (hpad : key.InSubgroup pair.pad.value) (hdata : key.InSubgroup pair.data.value)
  (haccept : proof.check digest key pair domain = .ok true)
  (hpad' : key.InSubgroup pair'.pad.value) (hdata' : key.InSubgroup pair'.data.value)
include hq hshare hpad hdata haccept hpad' hdata'

theorem eq_of_check_of_inSubgroup (haccept' : proof.check digest' key pair' domain = .ok true) :
    pair' = pair := by
  obtain ⟨-, howns, hholds⟩ := check_eq_ok_true_iff.mp haccept
  obtain ⟨-, howns', hholds'⟩ := check_eq_ok_true_iff.mp haccept'
  obtain ⟨pad, data, rfl⟩ := PublicKey.exists_points howns hpad hdata
  obtain ⟨pad', data', rfl⟩ := PublicKey.exists_points howns' hpad' hdata'
  obtain ⟨rfl, rfl⟩ := hholds.pair_eq hq hshare hholds'
  rfl

theorem check_eq_ok_false_of_pair_ne (howns' : key.ownsPair pair' = true) (hne : pair' ≠ pair) :
    proof.check digest' key pair' domain = .ok false := by
  obtain ⟨hmatch, -, -⟩ := check_eq_ok_true_iff.mp haccept
  have hcheck : proof.check digest' key pair' domain =
      .ok (proof.holds digest' key pair' domain) := check_of_matches hmatch howns'
  cases hholds : proof.holds digest' key pair' domain with
  | false => rw [hcheck, hholds]
  | true =>
    have haccept' : proof.check digest' key pair' domain = .ok true := by rw [hcheck, hholds]
    exact absurd
      (eq_of_check_of_inSubgroup hq hshare hpad hdata haccept hpad' hdata' haccept') hne

end OtherPair

/-- A proof is not accepted for another pair of the subgroup, by whatever digest, unless all its
shares are zero. -/
theorem check_other_pair (hq : key.q.value.Prime) (hshare : ∃ c ∈ proof.c, c ≠ 0)
    (hpad : key.InSubgroup pair.pad.value) (hdata : key.InSubgroup pair.data.value)
    (haccept : proof.check digest key pair domain = .ok true) (digest' : Digest) :
    (∀ pair' : Pair, key.InSubgroup pair'.pad.value → key.InSubgroup pair'.data.value →
      proof.check digest' key pair' domain = .ok true → pair' = pair) ∧
    (∀ pair' : Pair, key.ownsPair pair' = true → key.InSubgroup pair'.pad.value →
      key.InSubgroup pair'.data.value → pair' ≠ pair →
        proof.check digest' key pair' domain = .ok false) ∧
    ∀ m : ℕ, ¬ m ≡ 0 [MOD key.q.value] →
      proof.check digest' key ⟨pair.pad, pair.data * key.encode m⟩ domain = .ok false := by
  refine ⟨fun pair' hpad' hdata' =>
      eq_of_check_of_inSubgroup hq hshare hpad hdata haccept hpad' hdata',
    fun pair' howns' hpad' hdata' =>
      check_eq_ok_false_of_pair_ne hq hshare hpad hdata haccept hpad' hdata' howns', fun m hm => ?_⟩
  obtain ⟨-, howns, -⟩ := check_eq_ok_true_iff.mp haccept
  obtain ⟨pad, data, rfl⟩ := PublicKey.exists_points howns hpad hdata
  rw [PublicKey.element_mul_encode]
  apply check_eq_ok_false_of_pair_ne hq hshare hpad hdata haccept
  · exact hpad
  · exact PublicKey.inSubgroup_iff.mpr (Point.element_pow_order _)
  · exact PublicKey.ownsPair_element _ _
  · intro heq
    exact Point.add_smul_fPoint_ne hq data hm (Point.element_inj.mp (congrArg Pair.data heq))

theorem check_other_pair_seventeen :
    let key := PublicKey.small
    let pair := Pair.encrypt key 16 (.ofNat 7 key.q)
    let proof : MembershipProof := ⟨23, 11, [2, 6, 18], [2, 2, 3], [1, 1, 1], [4, 5, 6]⟩
    let domain : Domain := ⟨[0, 5, 16], by decide, by decide⟩
    key.q.value.Prime ∧ (∃ c ∈ proof.c, c ≠ 0) ∧ key.InSubgroup pair.pad.value ∧
      key.InSubgroup pair.data.value ∧ proof.check standardDigest key pair domain = .ok true ∧
      ∀ digest' : Digest,
        proof.check digest' key ⟨pair.pad, pair.data * key.encode 1⟩ domain = .ok false := by
  intro key pair proof domain
  have hq : key.q.value.Prime := by decide
  have hshare : ∃ c ∈ proof.c, c ≠ 0 := ⟨4, by decide, by decide⟩
  have hpad : key.InSubgroup pair.pad.value := by decide
  have hdata : key.InSubgroup pair.data.value := by decide
  have haccept : proof.check standardDigest key pair domain = .ok true := by decide +kernel
  have hpins := check_other_pair hq hshare hpad hdata haccept
  exact ⟨hq, hshare, hpad, hdata, haccept, fun digest' => (hpins digest').2.2 1 (by decide)⟩

end MembershipProof
end SecretTally

end
