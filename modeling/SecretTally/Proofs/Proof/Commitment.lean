import Mathlib
import SecretTally.Proof.Basic
import SecretTally.Proofs.PublicKey.Point

/-! Commitments in the subgroup. There a commitment is a pair of linear combinations of points, with
the response and the share of its answer as coefficients. -/

noncomputable section
namespace SecretTally

structure Answer.InRing (q : Modulus) (a : Answer) : Prop where
  modulus_s : a.s.modulus = q
  modulus_c : a.c.modulus = q

namespace Answer.InRing
variable {q : Modulus} {a : Answer} (h : a.InRing q)
include h

theorem s_lt : a.s.value < q.value := h.modulus_s ▸ a.s.value_lt

theorem c_lt : a.c.value < q.value := h.modulus_c ▸ a.c.value_lt

end Answer.InRing

theorem Answer.inRing_add {q : Modulus} {a b : Answer} (ha : a.InRing q) : (a + b).InRing q :=
  ⟨ha.modulus_s, ha.modulus_c⟩

theorem Answer.s_add (a b : Answer) : (a + b).s = a.s + b.s := rfl

theorem Answer.c_add (a b : Answer) : (a + b).c = a.c + b.c := rfl

namespace Answer
variable {q : Modulus} {a b : Answer}

theorem ext_inRing (ha : a.InRing q) (hb : b.InRing q) (hs : a.s.toZMod q = b.s.toZMod q)
    (hc : a.c.toZMod q = b.c.toZMod q) : a = b := by
  rw [Exponent.toZMod_inj ha.modulus_s hb.modulus_s] at hs
  rw [Exponent.toZMod_inj ha.modulus_c hb.modulus_c] at hc
  cases a
  cases b
  cases hs
  cases hc
  rfl

theorem add_comm_of_inRing (ha : a.InRing q) (hb : b.InRing q) : a + b = b + a := by
  refine ext_inRing (inRing_add ha) (inRing_add hb) ?_ ?_
  · rw [s_add, s_add, Exponent.toZMod_add ha.modulus_s, Exponent.toZMod_add hb.modulus_s, add_comm]
  · rw [c_add, c_add, Exponent.toZMod_add ha.modulus_c, Exponent.toZMod_add hb.modulus_c, add_comm]

theorem exists_add_eq {sum : Answer} (ha : a.InRing q) (hsum : sum.InRing q) :
    ∃ b : Answer, b.InRing q ∧ a + b = sum := by
  have hb : (Answer.mk (sum.s - a.s) (sum.c - a.c)).InRing q := ⟨hsum.modulus_s, hsum.modulus_c⟩
  refine ⟨_, hb, ext_inRing (inRing_add ha) hsum ?_ ?_⟩
  · rw [s_add, Exponent.toZMod_add ha.modulus_s, Exponent.toZMod_sub hsum.modulus_s,
      add_sub_cancel]
  · rw [c_add, Exponent.toZMod_add ha.modulus_c, Exponent.toZMod_sub hsum.modulus_c,
      add_sub_cancel]

end Answer

variable {key : PublicKey}

theorem MembershipProof.inRing_answers (proof : MembershipProof) {a : Answer}
    (ha : a ∈ proof.answers key) : a.InRing key.q := by
  obtain ⟨i, hi, rfl⟩ := List.mem_iff_getElem.mp ha
  simp only [answers, List.getElem_zipWith]
  exact ⟨rfl, rfl⟩

theorem Answer.commitment_eq {a : Answer} (ha : a.InRing key.q) (pad data : Point key) (d : ℕ) :
    a.commitment key ⟨pad.element, data.element⟩ d =
      ⟨(a.s.toZMod key.q • key.gPoint - a.c.toZMod key.q • pad).element,
        (a.s.toZMod key.q • key.hPoint
          - a.c.toZMod key.q • (data - (d : ZMod key.q.value) • key.fPoint)).element⟩ := by
  have hc : (-a.c).toZMod key.q = -a.c.toZMod key.q := Exponent.toZMod_neg ha.modulus_c
  simp only [commitment, PublicKey.g_eq, PublicKey.h_eq, PublicKey.encode_eq, Point.element_pow,
    Point.element_div, Point.element_mul, hc, neg_smul, ← sub_eq_add_neg]

theorem modulus_commitment_y (a : Answer) (pair : Pair) (d : ℕ) :
    (a.commitment key pair d).y.modulus = key.p := key.isGenerator_g.modulus_eq

theorem modulus_commitment_z (a : Answer) (pair : Pair) (d : ℕ) :
    (a.commitment key pair d).z.modulus = key.p := key.isGenerator_h.modulus_eq

theorem Pair.encrypt_eq (m : ℕ) (r : Exponent) :
    encrypt key m r = ⟨(r.toZMod key.q • key.gPoint).element,
      (r.toZMod key.q • key.hPoint + (m : ZMod key.q.value) • key.fPoint).element⟩ := by
  simp [encrypt, PublicKey.g_eq, PublicKey.h_eq, PublicKey.encode_eq]

theorem Pair.encrypt_mul (m₁ m₂ : ℕ) {r₁ r₂ : Exponent} (h : r₁.modulus = key.q) :
    encrypt key m₁ r₁ * encrypt key m₂ r₂ = encrypt key (m₁ + m₂) (r₁ + r₂) := by
  change Pair.mk _ _ = _
  simp only [encrypt_eq, Point.element_mul, Exponent.toZMod_add h, Nat.cast_add, mk.injEq,
    Point.element_inj]
  constructor <;> module

theorem PublicKey.ownsPair_iff {pair : Pair} : key.ownsPair pair = true ↔
    pair.pad.modulus = key.p ∧ pair.data.modulus = key.p := by
  simp only [ownsPair, owns, Bool.and_eq_true, decide_eq_true_eq]

@[simp] theorem PublicKey.ownsPair_element (pad data : Point key) :
    key.ownsPair ⟨pad.element, data.element⟩ = true := by
  exact ownsPair_iff.mpr ⟨pad.modulus_element, data.modulus_element⟩

theorem PublicKey.ownsPair_encrypt (m : ℕ) (r : Exponent) :
    key.ownsPair (Pair.encrypt key m r) = true := by
  rw [Pair.encrypt_eq, ownsPair_element]

end SecretTally

end
