import Mathlib
import SecretTally.Proof.Check

/-! What acceptance says. The Boolean tests of a check are taken apart here once, into the shape of
the proof and the equations that its entries satisfy. -/

namespace SecretTally.MembershipProof

structure WellShaped (proof : MembershipProof) (key : PublicKey) (domain : Domain) : Prop where
  length_y : proof.y.length = proof.size
  length_z : proof.z.length = proof.size
  length_s : proof.s.length = proof.size
  covered : proof.size ≤ domain.size
  s_lt : ∀ s ∈ proof.s, s < key.q.value
  c_lt : ∀ c ∈ proof.c, c < key.q.value
  y_range : ∀ y ∈ proof.y, 0 < y ∧ y < key.p.value
  z_range : ∀ z ∈ proof.z, 0 < z ∧ z < key.p.value

variable {proof : MembershipProof} {digest : Digest} {key : PublicKey} {pair : Pair}
  {domain : Domain}

theorem hasShape_iff : proof.hasShape key domain = true ↔ proof.WellShaped key domain := by
  simp only [hasShape, Bool.and_eq_true, decide_eq_true_eq, List.all_eq_true]
  constructor
  · rintro ⟨⟨⟨⟨⟨⟨⟨hy, hz⟩, hs⟩, hcovered⟩, hsq⟩, hcq⟩, hyp⟩, hzp⟩
    exact ⟨hy, hz, hs, hcovered, hsq, hcq, hyp, hzp⟩
  · intro h
    exact ⟨⟨⟨⟨⟨⟨⟨h.length_y, h.length_z⟩, h.length_s⟩, h.covered⟩, h.s_lt⟩, h.c_lt⟩, h.y_range⟩,
      h.z_range⟩

namespace WellShaped
variable (h : proof.WellShaped key domain)
include h

theorem length_answers : (proof.answers key).length = proof.size := by
  rw [answers, List.length_zipWith, h.length_s, size, Nat.min_self]

theorem map_s_answers : (proof.answers key).map (fun a => a.s.value) = proof.s := by
  have hlength : ((proof.answers key).map fun a => a.s.value).length = proof.s.length := by
    rw [List.length_map, h.length_answers, h.length_s]
  refine List.ext_getElem hlength fun i _ hi => ?_
  simpa [answers] using Nat.mod_eq_of_lt (h.s_lt _ (List.getElem_mem hi))

theorem map_c_answers : (proof.answers key).map (fun a => a.c.value) = proof.c := by
  have hlength : ((proof.answers key).map fun a => a.c.value).length = proof.c.length := by
    rw [List.length_map, h.length_answers, size]
  refine List.ext_getElem hlength fun i _ hi => ?_
  simpa [answers] using Nat.mod_eq_of_lt (h.c_lt _ (List.getElem_mem hi))

end WellShaped

structure Holds (proof : MembershipProof) (digest : Digest) (key : PublicKey) (pair : Pair)
    (domain : Domain) : Prop where
  shape : proof.WellShaped key domain
  y_eq : proof.y = (proof.commitments key pair domain).map fun k => k.y.value
  z_eq : proof.z = (proof.commitments key pair domain).map fun k => k.z.value
  total_eq : proof.totalShare key =
    key.challenge digest pair (proof.commitments key pair domain)

theorem holds_iff : proof.holds digest key pair domain = true ↔
    proof.Holds digest key pair domain := by
  simp only [holds, Bool.and_eq_true, decide_eq_true_eq, hasShape_iff]
  constructor
  · rintro ⟨hshape, ⟨hy, hz⟩, htotal⟩
    exact ⟨hshape, hy, hz, htotal⟩
  · intro h
    exact ⟨h.shape, ⟨h.y_eq, h.z_eq⟩, h.total_eq⟩

theorem check_of_matches (hproof : proof.matchesKey key = true) (hpair : key.ownsPair pair = true) :
    proof.check digest key pair domain = .ok (proof.holds digest key pair domain) := by
  rw [check, if_pos (by rw [hproof, hpair]; rfl)]

theorem check_eq_ok_true_iff : proof.check digest key pair domain = .ok true ↔
    proof.matchesKey key = true ∧ key.ownsPair pair = true ∧
      proof.Holds digest key pair domain := by
  rw [← holds_iff, check]
  split
  · next h =>
    rw [Bool.and_eq_true] at h
    simp [h.1, h.2]
  · next h =>
    rw [Bool.and_eq_true] at h
    simp only [reduceCtorEq, false_iff]
    exact fun hall => h ⟨hall.1, hall.2.1⟩

theorem Holds.exists_branch (h : proof.Holds digest key pair domain) {i c : ℕ}
    (hc : proof.c[i]? = some c) : ∃ d s, domain.values[i]? = some d ∧ proof.s[i]? = some s ∧
      ∃ k, k = (Answer.mk (.ofNat s key.q) (.ofNat c key.q)).commitment key pair d ∧
        proof.y[i]? = some k.y.value ∧ proof.z[i]? = some k.z.value := by
  obtain ⟨hi, _⟩ := List.getElem?_eq_some_iff.mp hc
  have hs : i < proof.s.length := h.shape.length_s ▸ hi
  have hd : i < domain.values.length := Nat.lt_of_lt_of_le hi h.shape.covered
  refine ⟨domain.values[i], proof.s[i], List.getElem?_eq_getElem hd, List.getElem?_eq_getElem hs,
    _, rfl, ?_, ?_⟩
  · simp [h.y_eq, commitments, answers, List.getElem?_zipWith, hc, hs, hd]
  · simp [h.z_eq, commitments, answers, List.getElem?_zipWith, hc, hs, hd]

end SecretTally.MembershipProof
