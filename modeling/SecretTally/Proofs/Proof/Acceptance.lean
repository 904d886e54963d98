import Mathlib
import SecretTally.Proofs.Proof.Check
import SecretTally.Proofs.Proof.Closing

/-! The acceptance condition in plain arithmetic: which integers a proof has to consist of, with
powers, quotients and the challenge written out. A check decides it for proofs and pairs of the key's
group, whatever their lists are, and refuses all others. -/

noncomputable section
namespace SecretTally

namespace MembershipProof
variable {proof : MembershipProof} {key : PublicKey} {pair : Pair} {domain : Domain} {i d s c : ℕ}

/-- What the challenge is the digest of, if the entries are the recomputed commitments. -/
def hashedText (proof : MembershipProof) (key : PublicKey) (pair : Pair) : List Char :=
  Decimal.print key.g.value ++ Decimal.print key.h.value ++ Decimal.print pair.pad.value
    ++ Decimal.print pair.data.value
    ++ (List.zipWith (fun y z => Decimal.print y ++ Decimal.print z) proof.y proof.z).flatten

structure BranchSatisfies (key : PublicKey) (pair : Pair) (d y z s c : ℕ) : Prop where
  y_eq : (y : ZMod key.p.value) =
    key.g.value ^ s * pair.pad.value ^ ((key.q.value - c) % key.q.value)
  z_eq : (z : ZMod key.p.value) = key.h.value ^ s
    * (pair.data.value * ((key.f.value : ZMod key.p.value) ^ d)⁻¹)
      ^ ((key.q.value - c) % key.q.value)

structure Satisfies (proof : MembershipProof) (key : PublicKey) (pair : Pair) (domain : Domain) :
    Prop where
  shape : proof.WellShaped key domain
  branches : ∀ i < proof.size, ∃ d y z s c, domain.values[i]? = some d ∧ proof.y[i]? = some y ∧
    proof.z[i]? = some z ∧ proof.s[i]? = some s ∧ proof.c[i]? = some c ∧
      BranchSatisfies key pair d y z s c
  share_sum : proof.c.sum ≡ Bytes.bigEndian (Sha1.digest
    ((proof.hashedText key pair).map Char.toUInt8)) [MOD key.q.value]

theorem getElem?_commitments {k : Commitment} : (proof.commitments key pair domain)[i]? = some k ↔
    ∃ d s c, domain.values[i]? = some d ∧ proof.s[i]? = some s ∧ proof.c[i]? = some c ∧
      (Answer.mk (.ofNat s key.q) (.ofNat c key.q)).commitment key pair d = k := by
  simp only [commitments, answers, List.getElem?_zipWith_eq_some]
  constructor
  · rintro ⟨d, _, hd, ⟨s, c, hs, hc, rfl⟩, rfl⟩
    exact ⟨d, s, c, hd, hs, hc, rfl⟩
  · rintro ⟨d, s, c, hd, hs, hc, rfl⟩
    exact ⟨d, _, hd, ⟨s, c, hs, hc, rfl⟩, rfl⟩

end MembershipProof

variable {key : PublicKey} {pair : Pair} {d s c : ℕ}

theorem toZMod_commitment_y (hpad : pair.pad.modulus = key.p) (hs : s < key.q.value)
    (hc : c < key.q.value) :
    ((Answer.mk (.ofNat s key.q) (.ofNat c key.q)).commitment key pair d).y.toZMod key.p =
      key.g.value ^ s * pair.pad.value ^ ((key.q.value - c) % key.q.value) := by
  have hpower : (key.g ^ Exponent.ofNat s key.q).modulus = key.p := key.isGenerator_g.modulus_eq
  rw [Answer.commitment, Element.toZMod_mul hpower,
    Element.toZMod_pow key.isGenerator_g.modulus_eq, Element.toZMod_pow hpad, Exponent.value_neg,
    Exponent.modulus_ofNat, Exponent.value_ofNat, Exponent.value_ofNat, Nat.mod_eq_of_lt hs,
    Nat.mod_eq_of_lt hc, Element.toZMod, Element.toZMod]

theorem toZMod_commitment_z (hdata : pair.data.modulus = key.p) (hs : s < key.q.value)
    (hc : c < key.q.value) :
    ((Answer.mk (.ofNat s key.q) (.ofNat c key.q)).commitment key pair d).z.toZMod key.p =
      key.h.value ^ s * (pair.data.value * ((key.f.value : ZMod key.p.value) ^ d)⁻¹)
        ^ ((key.q.value - c) % key.q.value) := by
  have hpower : (key.h ^ Exponent.ofNat s key.q).modulus = key.p := key.isGenerator_h.modulus_eq
  have hquotient : (pair.data / key.encode d).modulus = key.p := hdata
  have hunit : IsUnit ((key.encode d).toZMod key.p) := by
    rw [PublicKey.encode_eq, Point.toZMod_element]
    exact Units.isUnit _
  rw [Answer.commitment, Element.toZMod_mul hpower,
    Element.toZMod_pow key.isGenerator_h.modulus_eq, Element.toZMod_pow hquotient,
    Element.toZMod_div hdata hunit, PublicKey.toZMod_encode, Exponent.value_neg,
    Exponent.modulus_ofNat, Exponent.value_ofNat, Exponent.value_ofNat, Nat.mod_eq_of_lt hs,
    Nat.mod_eq_of_lt hc, Element.toZMod, Element.toZMod, Element.toZMod]

theorem Element.eq_value_of_class {p : Modulus} {x : Element} {n : ℕ} (hx : x.modulus = p)
    (hn : n < p.value) (h : (n : ZMod p.value) = x.toZMod p) : n = x.value :=
  (natCast_inj_of_lt hn (hx ▸ x.value_lt)).mp h

theorem eq_map_of_getElem? {α β : Type} {xs : List β} {as : List α} {f : α → β}
    (hlength : xs.length = as.length)
    (h : ∀ (i : ℕ) (a : α), as[i]? = some a → xs[i]? = some (f a)) : xs = as.map f := by
  apply List.ext_getElem?
  intro i
  rw [List.getElem?_map]
  cases ha : as[i]? with
  | none => exact List.getElem?_eq_none (hlength ▸ List.getElem?_eq_none_iff.mp ha)
  | some a => exact h i a ha

theorem toZMod_challenge (commitments : List Commitment) :
    (key.challenge standardDigest pair commitments).toZMod key.q =
      Bytes.bigEndian (Sha1.digest
        ((commitmentText key.g key.h pair commitments).map Char.toUInt8)) := by
  have hlength : ∀ message, (Sha1.digest message).length ≤ Decimal.width / 8 := fun message => by
    rw [Sha1.length_digest]
    decide
  rw [PublicKey.challenge, challengeOf, Exponent.ofBytes, Exponent.toZMod_ofNat, standardDigest,
    Bytes.lowest_of_length_le (hlength _)]

namespace MembershipProof
variable {proof : MembershipProof} {domain : Domain} {commitments : List Commitment} {i : ℕ}

theorem commitmentText_eq_hashedText (hy : proof.y = commitments.map fun k => k.y.value)
    (hz : proof.z = commitments.map fun k => k.z.value) :
    commitmentText key.g key.h pair commitments = proof.hashedText key pair := by
  rw [hashedText, hy, hz, List.zipWith_map, List.zipWith_self]
  rfl

theorem WellShaped.toZMod_totalShare (h : proof.WellShaped key domain) :
    (proof.totalShare key).toZMod key.q = (proof.c.sum : ℕ) := by
  rw [totalShare, toZMod_foldl_share _ (Exponent.modulus_zero key.q), Exponent.toZMod_zero,
    zero_add, Nat.cast_list_sum, ← h.map_c_answers, List.map_map]
  rfl

theorem WellShaped.length_commitments (h : proof.WellShaped key domain) :
    (proof.commitments key pair domain).length = proof.size := by
  rw [commitments, List.length_zipWith, h.length_answers]
  exact Nat.min_eq_right h.covered

theorem WellShaped.entries_eq_iff (h : proof.WellShaped key domain) :
    (proof.y = (proof.commitments key pair domain).map (fun k => k.y.value) ∧
      proof.z = (proof.commitments key pair domain).map fun k => k.z.value) ↔
    ∀ (i : ℕ) (k : Commitment), (proof.commitments key pair domain)[i]? = some k →
      proof.y[i]? = some k.y.value ∧ proof.z[i]? = some k.z.value := by
  have hlength : (proof.commitments key pair domain).length = proof.size := h.length_commitments
  constructor
  · rintro ⟨hy, hz⟩ i k hk
    rw [hy, hz, List.getElem?_map, List.getElem?_map, hk]
    exact ⟨rfl, rfl⟩
  · intro hentries
    exact ⟨eq_map_of_getElem? (h.length_y.trans hlength.symm) fun i k hk => (hentries i k hk).1,
      eq_map_of_getElem? (h.length_z.trans hlength.symm) fun i k hk => (hentries i k hk).2⟩

theorem total_eq_iff (h : proof.WellShaped key domain)
    (hy : proof.y = (proof.commitments key pair domain).map fun k => k.y.value)
    (hz : proof.z = (proof.commitments key pair domain).map fun k => k.z.value) :
    proof.totalShare key =
        key.challenge standardDigest pair (proof.commitments key pair domain) ↔
      proof.c.sum ≡ Bytes.bigEndian (Sha1.digest
        ((proof.hashedText key pair).map Char.toUInt8)) [MOD key.q.value] := by
  have htotal : (proof.totalShare key).modulus = key.q := modulus_foldl_share _ _
  rw [← Exponent.toZMod_inj htotal (modulus_challenge pair _), h.toZMod_totalShare,
    toZMod_challenge, commitmentText_eq_hashedText hy hz, ZMod.natCast_eq_natCast_iff]

section Matching
variable (hpad : pair.pad.modulus = key.p) (hdata : pair.data.modulus = key.p)
include hpad hdata

theorem Holds.exists_branchSatisfies {digest : Digest} (h : proof.Holds digest key pair domain)
    (hi : i < proof.size) : ∃ d y z s c, domain.values[i]? = some d ∧ proof.y[i]? = some y ∧
      proof.z[i]? = some z ∧ proof.s[i]? = some s ∧ proof.c[i]? = some c ∧
        BranchSatisfies key pair d y z s c := by
  obtain ⟨d, s, hd, hs, k, rfl, hy, hz⟩ := h.exists_branch (List.getElem?_eq_getElem hi)
  have hslt : s < key.q.value := h.shape.s_lt s (List.mem_of_getElem? hs)
  have hclt : proof.c[i] < key.q.value := h.shape.c_lt _ (List.getElem_mem hi)
  exact ⟨d, _, _, s, _, hd, hy, hz, hs, List.getElem?_eq_getElem hi,
    toZMod_commitment_y hpad hslt hclt, toZMod_commitment_z hdata hslt hclt⟩

theorem Holds.branchSatisfies {digest : Digest} {d y z s c : ℕ}
    (h : proof.Holds digest key pair domain) (hd : domain.values[i]? = some d)
    (hy : proof.y[i]? = some y) (hz : proof.z[i]? = some z) (hs : proof.s[i]? = some s)
    (hc : proof.c[i]? = some c) : BranchSatisfies key pair d y z s c := by
  obtain ⟨d', y', z', s', c', hd', hy', hz', hs', hc', hbranch⟩ :=
    h.exists_branchSatisfies hpad hdata (List.getElem?_eq_some_iff.mp hc).1
  cases hd.symm.trans hd'
  cases hy.symm.trans hy'
  cases hz.symm.trans hz'
  cases hs.symm.trans hs'
  cases hc.symm.trans hc'
  exact hbranch

theorem Holds.satisfies (h : proof.Holds standardDigest key pair domain) :
    proof.Satisfies key pair domain :=
  ⟨h.shape, fun _ hi => h.exists_branchSatisfies hpad hdata hi,
    (total_eq_iff h.shape h.y_eq h.z_eq).mp h.total_eq⟩

theorem Satisfies.getElem?_of_commitments (h : proof.Satisfies key pair domain) {k : Commitment}
    (hk : (proof.commitments key pair domain)[i]? = some k) :
    proof.y[i]? = some k.y.value ∧ proof.z[i]? = some k.z.value := by
  obtain ⟨d, s, c, hd, hs, hc, rfl⟩ := getElem?_commitments.mp hk
  obtain ⟨d', y, z, s', c', hd', hy, hz, hs', hc', hbranch⟩ :=
    h.branches i (List.getElem?_eq_some_iff.mp hc).1
  cases hd.symm.trans hd'
  cases hs.symm.trans hs'
  cases hc.symm.trans hc'
  have hslt : s < key.q.value := h.shape.s_lt s (List.mem_of_getElem? hs)
  have hclt : c < key.q.value := h.shape.c_lt c (List.mem_of_getElem? hc)
  have hylt := (h.shape.y_range y (List.mem_of_getElem? hy)).2
  have hzlt := (h.shape.z_range z (List.mem_of_getElem? hz)).2
  have hyclass := hbranch.y_eq.trans (toZMod_commitment_y (d := d) hpad hslt hclt).symm
  have hzclass := hbranch.z_eq.trans (toZMod_commitment_z (d := d) hdata hslt hclt).symm
  have hyvalue := Element.eq_value_of_class (modulus_commitment_y _ pair d) hylt hyclass
  have hzvalue := Element.eq_value_of_class (modulus_commitment_z _ pair d) hzlt hzclass
  exact ⟨hyvalue ▸ hy, hzvalue ▸ hz⟩

theorem Satisfies.holds (h : proof.Satisfies key pair domain) :
    proof.Holds standardDigest key pair domain := by
  obtain ⟨hy, hz⟩ := h.shape.entries_eq_iff.mpr fun _ _ hk =>
    h.getElem?_of_commitments hpad hdata hk
  exact ⟨h.shape, hy, hz, (total_eq_iff h.shape hy hz).mpr h.share_sum⟩

end Matching

open scoped Classical in
/-- Proofs and pairs of the key's group are accepted exactly if the acceptance condition holds, and all
others are refused. -/
theorem check_eq (proof : MembershipProof) (key : PublicKey) (pair : Pair) (domain : Domain) :
    proof.check standardDigest key pair domain =
      if proof.p = key.p.value ∧ proof.q = key.q.value ∧ pair.pad.modulus = key.p ∧
          pair.data.modulus = key.p then
        .ok (decide (proof.Satisfies key pair domain))
      else .error .foreignGroup := by
  simp only [check, matchesKey, PublicKey.ownsPair_iff, Bool.and_eq_true, decide_eq_true_eq,
    and_assoc]
  split
  · next h =>
    obtain ⟨-, -, hpad, hdata⟩ := h
    rw [Except.ok.injEq, Bool.eq_iff_iff, decide_eq_true_eq, holds_iff]
    exact ⟨Holds.satisfies hpad hdata, Satisfies.holds hpad hdata⟩
  · rfl

end MembershipProof

end SecretTally

end
