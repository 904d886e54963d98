import Mathlib
import SecretTally.Proofs.Proof.Subgroup

/-! Special soundness. Two answers that fit one commitment with different shares reveal randomness
with which the pair encrypts the value of their branch. A pair off the subgroup is opened up to a
sign only, since its square is in the subgroup. -/

noncomputable section
namespace SecretTally

namespace Exponent
variable {q : Modulus} {e : Exponent}

def inverse (e : Exponent) : Exponent := ofNat (inverseMod e.value e.modulus.value) e.modulus

theorem toZMod_inverse (hq : q.value.Prime) (h : e.modulus = q) (he : e.toZMod q ≠ 0) :
    e.inverse.toZMod q = (e.toZMod q)⁻¹ := by
  have : Fact q.value.Prime := ⟨hq⟩
  subst h
  have hcoprime := (ZMod.isUnit_iff_coprime e.value e.modulus.value).mp he.isUnit
  rw [inverse, toZMod_ofNat, natCast_inverseMod e.modulus.pos hcoprime, toZMod]

end Exponent

def Answer.extract (a b : Answer) : Exponent := (a.s - b.s) * (a.c - b.c).inverse

variable {key : PublicKey} {pair : Pair} {a b : Answer} {x y : Element} {d : ℕ}

namespace Answer
variable (hq : key.q.value.Prime) (ha : a.InRing key.q) (hb : b.InRing key.q) (hc : a.c ≠ b.c)

include ha hb hc in
theorem share_sub_ne_zero : a.c.toZMod key.q - b.c.toZMod key.q ≠ 0 := by
  rw [sub_ne_zero, Ne, Exponent.toZMod_inj ha.modulus_c hb.modulus_c]
  exact hc

include hq ha hb hc

theorem toZMod_extract : (a.extract b).toZMod key.q =
    (a.s.toZMod key.q - b.s.toZMod key.q) * (a.c.toZMod key.q - b.c.toZMod key.q)⁻¹ := by
  have hresponse : (a.s - b.s).modulus = key.q := ha.modulus_s
  have hshare : (a.c - b.c).modulus = key.q := ha.modulus_c
  have hclass : (a.c - b.c).toZMod key.q = a.c.toZMod key.q - b.c.toZMod key.q :=
    Exponent.toZMod_sub ha.modulus_c
  have hne : (a.c - b.c).toZMod key.q ≠ 0 := hclass ▸ share_sub_ne_zero ha hb hc
  rw [extract, Exponent.toZMod_mul hresponse, Exponent.toZMod_sub ha.modulus_s,
    Exponent.toZMod_inverse hq hshare hne, hclass]

theorem extract_mul : a.extract b * (a.c - b.c) = a.s - b.s := by
  have : Fact key.q.value.Prime := ⟨hq⟩
  have hr : (a.extract b).modulus = key.q := ha.modulus_s
  have hproduct : (a.extract b * (a.c - b.c)).modulus = key.q := hr
  have hresponse : (a.s - b.s).modulus = key.q := ha.modulus_s
  rw [← Exponent.toZMod_inj hproduct hresponse, Exponent.toZMod_mul hr,
    toZMod_extract hq ha hb hc, Exponent.toZMod_sub ha.modulus_c, Exponent.toZMod_sub ha.modulus_s,
    inv_mul_cancel_right₀ (share_sub_ne_zero ha hb hc)]

theorem eq_extract_smul {u v : Point key}
    (h : a.s.toZMod key.q • u - a.c.toZMod key.q • v = b.s.toZMod key.q • u - b.c.toZMod key.q • v) :
    v = (a.extract b).toZMod key.q • u := by
  have : Fact key.q.value.Prime := ⟨hq⟩
  have hdiff : (a.c.toZMod key.q - b.c.toZMod key.q) • v =
      (a.s.toZMod key.q - b.s.toZMod key.q) • u := by
    rw [sub_smul, sub_smul, sub_eq_sub_iff_add_eq_add]
    rw [sub_eq_sub_iff_add_eq_add] at h
    rw [add_comm, ← h, add_comm]
  rw [toZMod_extract hq ha hb hc, mul_comm, mul_smul, ← hdiff,
    inv_smul_smul₀ (share_sub_ne_zero ha hb hc)]

theorem eq_encrypt_extract {pad data : Point key}
    (h : a.commitment key ⟨pad.element, data.element⟩ d =
      b.commitment key ⟨pad.element, data.element⟩ d) :
    Pair.mk pad.element data.element = Pair.encrypt key d (a.extract b) := by
  rw [commitment_eq ha, commitment_eq hb, Commitment.mk.injEq, Point.element_inj,
    Point.element_inj] at h
  have hpad : pad = (a.extract b).toZMod key.q • key.gPoint := eq_extract_smul hq ha hb hc h.1
  have hdata : data - (d : ZMod key.q.value) • key.fPoint =
      (a.extract b).toZMod key.q • key.hPoint := eq_extract_smul hq ha hb hc h.2
  rw [Pair.encrypt_eq, ← hpad, ← hdata, sub_add_cancel]

end Answer

namespace Element

theorem mul_mul_self (h : x.modulus = y.modulus) : x * y * (x * y) = x * x * (y * y) := by
  have hproduct : (x * y).modulus = y.modulus := h
  have hsquare : (x * x).modulus = y.modulus := h
  have hleft : (x * y * (x * y)).modulus = y.modulus := h
  have hright : (x * x * (y * y)).modulus = y.modulus := h
  rw [← toZMod_inj hleft hright, toZMod_mul hproduct, toZMod_mul h, toZMod_mul hsquare,
    toZMod_mul h, toZMod_mul rfl, mul_mul_mul_comm]

theorem pow_mul_self (x : Element) (e : Exponent) : x ^ e * x ^ e = (x * x) ^ e := by
  have hpower : (x ^ e).modulus = x.modulus := rfl
  have hsquare : (x * x).modulus = x.modulus := rfl
  have hleft : (x ^ e * x ^ e).modulus = x.modulus := rfl
  have hright : ((x * x) ^ e).modulus = x.modulus := rfl
  rw [← toZMod_inj hleft hright, toZMod_mul hpower, toZMod_pow rfl, toZMod_pow hsquare,
    toZMod_mul rfl, mul_pow]

end Element

theorem PublicKey.div_mul_encode (hx : x.modulus = key.p) : x / key.encode d * key.encode d = x := by
  have hquotient : (x / key.encode d).modulus = key.p := hx
  have hproduct : (x / key.encode d * key.encode d).modulus = key.p := hx
  rw [← Element.toZMod_inj hproduct hx, Element.toZMod_mul hquotient, encode_eq,
    Element.toZMod_div hx (by simp), Point.toZMod_element, ZMod.inv_coe_unit, Units.inv_mul_cancel_right]

theorem exists_point_square (hx : x.modulus = key.p)
    (h : (x.toZMod key.p ^ key.q.value) ^ 2 = 1) : ∃ u : Point key, u.element = x * x := by
  have horder : (x * x).toZMod key.p ^ key.q.value = 1 := by
    rw [Element.toZMod_mul hx, ← sq, pow_right_comm, h]
  have hsquare : (x * x).modulus = key.p := hx
  exact ⟨.ofElement (x * x) horder, Point.element_ofElement hsquare horder⟩

theorem commitment_square {u v : Point key} (ha : a.InRing key.q)
    (hpad : pair.pad.modulus = key.p) (hdata : pair.data.modulus = key.p)
    (hu : u.element = pair.pad * pair.pad)
    (hv : v.element = pair.data / key.encode d * (pair.data / key.encode d)) :
    let commitment := a.commitment key pair d
    commitment.y * commitment.y =
      (a.s.toZMod key.q • (key.gPoint + key.gPoint) - a.c.toZMod key.q • u).element ∧
    commitment.z * commitment.z =
      (a.s.toZMod key.q • (key.hPoint + key.hPoint) - a.c.toZMod key.q • v).element := by
  have hc : (-a.c).toZMod key.q = -a.c.toZMod key.q := Exponent.toZMod_neg ha.modulus_c
  have hg : (key.g ^ a.s).modulus = (pair.pad ^ (-a.c)).modulus :=
    key.isGenerator_g.modulus_eq.trans hpad.symm
  have hh : (key.h ^ a.s).modulus = ((pair.data / key.encode d) ^ (-a.c)).modulus :=
    key.isGenerator_h.modulus_eq.trans hdata.symm
  constructor
  · rw [Answer.commitment, Element.mul_mul_self hg, Element.pow_mul_self, Element.pow_mul_self, ← hu]
    simp only [PublicKey.g_eq, Point.element_mul, Point.element_pow, hc, neg_smul, ← sub_eq_add_neg]
  · rw [Answer.commitment, Element.mul_mul_self hh, Element.pow_mul_self, Element.pow_mul_self, ← hv]
    simp only [PublicKey.h_eq, Point.element_mul, Point.element_pow, hc, neg_smul, ← sub_eq_add_neg]

theorem Answer.squares_eq_of_extract (hp : key.p.value.Prime) (hq : key.q.value.Prime)
    (hpadModulus : pair.pad.modulus = key.p) (hdataModulus : pair.data.modulus = key.p)
    (hpad : 0 < pair.pad.value) (hdata : 0 < pair.data.value) (ha : a.InRing key.q)
    (hb : b.InRing key.q) (hc : a.c ≠ b.c)
    (h : a.commitment key pair d = b.commitment key pair d) :
    pair.pad * pair.pad = key.g ^ a.extract b * key.g ^ a.extract b ∧
      pair.data * pair.data = key.h ^ a.extract b * key.encode d
        * (key.h ^ a.extract b * key.encode d) := by
  have hquotient : (pair.data / key.encode d).modulus = key.p := hdataModulus
  have hencode : (key.encode d).modulus = key.p := key.isGenerator_f.modulus_eq
  have hblinding : (key.h ^ a.extract b).modulus = key.p := key.isGenerator_h.modulus_eq
  have hsign := PublicKey.pow_order_sq hp hdataModulus hdata
  rw [← div_encode_pow_order hdataModulus d] at hsign
  obtain ⟨u, hu⟩ := exists_point_square hpadModulus (PublicKey.pow_order_sq hp hpadModulus hpad)
  obtain ⟨v, hv⟩ := exists_point_square hquotient hsign
  obtain ⟨hya, hza⟩ := commitment_square ha hpadModulus hdataModulus hu hv
  obtain ⟨hyb, hzb⟩ := commitment_square hb hpadModulus hdataModulus hu hv
  rw [h, hyb, Point.element_inj] at hya
  rw [h, hzb, Point.element_inj] at hza
  have hg : pair.pad * pair.pad = key.g ^ a.extract b * key.g ^ a.extract b := by
    rw [← hu, eq_extract_smul hq ha hb hc hya.symm, Element.pow_mul_self, PublicKey.g_eq,
      Point.element_mul, Point.element_pow]
  have hh : pair.data / key.encode d * (pair.data / key.encode d) =
      key.h ^ a.extract b * key.h ^ a.extract b := by
    rw [← hv, eq_extract_smul hq ha hb hc hza.symm, Element.pow_mul_self, PublicKey.h_eq,
      Point.element_mul, Point.element_pow]
  refine ⟨hg, ?_⟩
  rw [Element.mul_mul_self (hblinding.trans hencode.symm), ← hh,
    ← Element.mul_mul_self (hquotient.trans hencode.symm), PublicKey.div_mul_encode hdataModulus]

/-- Two answers to one commitment, with different shares, reveal how the pair was made, and off the
subgroup its square. -/
theorem Answer.extract_opens (hp : key.p.value.Prime) (hq : key.q.value.Prime)
    (howns : key.ownsPair pair = true) (hpad : 0 < pair.pad.value) (hdata : 0 < pair.data.value)
    (ha : a.InRing key.q) (hb : b.InRing key.q) (hc : a.c ≠ b.c)
    (h : a.commitment key pair d = b.commitment key pair d) :
    let r := a.extract b
    r.modulus = key.q ∧ r * (a.c - b.c) = a.s - b.s ∧
      pair.pad.value ^ 2 ≡ key.g.value ^ (2 * r.value) [MOD key.p.value] ∧
      pair.data.value ^ 2 ≡ (key.h.value ^ r.value * key.f.value ^ d) ^ 2 [MOD key.p.value] ∧
      (key.InSubgroup pair.pad.value → key.InSubgroup pair.data.value →
        pair = Pair.encrypt key d r) := by
  intro r
  have hmodulus := PublicKey.ownsPair_iff.mp howns
  have hgPower : (key.g ^ r).modulus = key.p := key.isGenerator_g.modulus_eq
  have hhPower : (key.h ^ r).modulus = key.p := key.isGenerator_h.modulus_eq
  have hproduct : (key.h ^ r * key.encode d).modulus = key.p := key.isGenerator_h.modulus_eq
  obtain ⟨hg, hh⟩ :=
    squares_eq_of_extract hp hq hmodulus.1 hmodulus.2 hpad hdata ha hb hc h
  refine ⟨ha.modulus_s, extract_mul hq ha hb hc, ?_, ?_, fun hpadOrder hdataOrder => ?_⟩
  · have hclass := congrArg (Element.toZMod key.p) hg
    rw [Element.toZMod_mul hmodulus.1, Element.toZMod_mul hgPower,
      Element.toZMod_pow key.isGenerator_g.modulus_eq, ← sq, ← sq, ← pow_mul'] at hclass
    rw [← ZMod.natCast_eq_natCast_iff]
    push_cast
    exact hclass
  · have hclass := congrArg (Element.toZMod key.p) hh
    rw [Element.toZMod_mul hmodulus.2, Element.toZMod_mul hproduct, Element.toZMod_mul hhPower,
      Element.toZMod_pow key.isGenerator_h.modulus_eq, PublicKey.toZMod_encode, ← sq,
      ← sq] at hclass
    rw [← ZMod.natCast_eq_natCast_iff]
    push_cast
    exact hclass
  · obtain ⟨pad, hpadEq⟩ := hpadOrder.exists_point hmodulus.1
    obtain ⟨data, hdataEq⟩ := hdataOrder.exists_point hmodulus.2
    have hpair : pair = ⟨pad.element, data.element⟩ := by rw [hpadEq, hdataEq]
    rw [hpair] at h ⊢
    exact eq_encrypt_extract hq ha hb hc h

theorem Answer.extract_opens_seven :
    let key := PublicKey.small
    let pair := Pair.encrypt key 16 (.ofNat 7 key.q)
    let a : Answer := ⟨.ofNat 10 key.q, .ofNat 1 key.q⟩
    let b : Answer := ⟨.ofNat 9 key.q, .ofNat 4 key.q⟩
    key.p.value.Prime ∧ key.q.value.Prime ∧ key.ownsPair pair = true ∧ 0 < pair.pad.value ∧
      0 < pair.data.value ∧ a.InRing key.q ∧ b.InRing key.q ∧ a.c ≠ b.c ∧
      a.commitment key pair 16 = b.commitment key pair 16 ∧ a.extract b = .ofNat 7 key.q ∧
      pair = Pair.encrypt key 16 (a.extract b) := by
  intro key pair a b
  have hp : key.p.value.Prime := by decide
  have hq : key.q.value.Prime := by decide
  have ha : a.InRing key.q := ⟨rfl, rfl⟩
  have hb : b.InRing key.q := ⟨rfl, rfl⟩
  have hc : a.c ≠ b.c := by decide
  have h : a.commitment key pair 16 = b.commitment key pair 16 := by decide
  obtain ⟨-, -, -, -, hopens⟩ :=
    extract_opens hp hq (by decide) (by decide) (by decide) ha hb hc h
  exact ⟨hp, hq, by decide, by decide, by decide, ha, hb, hc, h, by decide,
    hopens (by decide) (by decide)⟩

end SecretTally

end
