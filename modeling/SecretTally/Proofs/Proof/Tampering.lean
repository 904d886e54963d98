import Mathlib
import SecretTally.Proofs.Proof.Binding

/-! Tampering with an accepted proof. Answers determine the commitments; commitments determine the
hash, hence the sum of the shares, and with the shares the responses too. So no other commitments are
accepted for the answers, and no other answers for the commitments, unless two shares change at once.
-/

noncomputable section
namespace SecretTally

theorem eq_of_sum_modEq {q i : ℕ} {xs ys : List ℕ} (hlength : ys.length = xs.length)
    (hagree : ∀ j ≠ i, ys[j]? = xs[j]?) (hxs : ∀ x ∈ xs, x < q) (hys : ∀ y ∈ ys, y < q)
    (hsum : ys.sum ≡ xs.sum [MOD q]) : ys = xs := by
  induction xs generalizing ys i with
  | nil => exact List.length_eq_zero_iff.mp hlength
  | cons x xs ih =>
    obtain _ | ⟨y, ys⟩ := ys
    · cases hlength
    · rw [List.forall_mem_cons] at hxs hys
      rw [List.sum_cons, List.sum_cons] at hsum
      cases i with
      | zero =>
        have htail : ys = xs := List.ext_getElem? fun j => hagree (j + 1) (Nat.succ_ne_zero j)
        subst htail
        rw [(Nat.ModEq.add_right_cancel' _ hsum).eq_of_lt_of_lt hys.1 hxs.1]
      | succ i =>
        have hhead : y = x := Option.some.inj (hagree 0 (Nat.succ_ne_zero i).symm)
        subst hhead
        rw [ih (Nat.succ.inj hlength) (fun j hj => hagree (j + 1) (Nat.succ_ne_succ_iff.mpr hj)) hxs.2
          hys.2 (Nat.ModEq.add_left_cancel' _ hsum)]

theorem set_ne_self {α : Type} {xs : List α} {i : ℕ} {old new : α} (h : xs[i]? = some old)
    (hne : new ≠ old) : xs.set i new ≠ xs := by
  intro hset
  have hi : i < xs.length := (List.getElem?_eq_some_iff.mp h).1
  have hnew : (xs.set i new)[i]? = some new := List.getElem?_set_self hi
  rw [hset, h] at hnew
  exact hne (Option.some.inj hnew).symm

attribute [ext] MembershipProof

namespace MembershipProof

/-- One entry of one list is replaced by another number. -/
inductive EditedOnce (proof : MembershipProof) : MembershipProof → Prop
  | y {i old new : ℕ} (h : proof.y[i]? = some old) (hne : new ≠ old) :
      EditedOnce proof { proof with y := proof.y.set i new }
  | z {i old new : ℕ} (h : proof.z[i]? = some old) (hne : new ≠ old) :
      EditedOnce proof { proof with z := proof.z.set i new }
  | s {i old new : ℕ} (h : proof.s[i]? = some old) (hne : new ≠ old) :
      EditedOnce proof { proof with s := proof.s.set i new }
  | c {i old new : ℕ} (h : proof.c[i]? = some old) (hne : new ≠ old) :
      EditedOnce proof { proof with c := proof.c.set i new }

variable {proof other : MembershipProof} {digest : Digest} {key : PublicKey} {pair : Pair}
  {domain : Domain}

namespace Holds
variable (h : proof.Holds digest key pair domain) (h' : other.Holds digest key pair domain)
include h h'

theorem commitments_eq (hs : other.s = proof.s) (hc : other.c = proof.c) :
    other.y = proof.y ∧ other.z = proof.z := by
  have hanswers : other.answers key = proof.answers key := by
    unfold answers
    rw [hs, hc]
  have hcommitments : other.commitments key pair domain = proof.commitments key pair domain := by
    unfold commitments
    rw [hanswers]
  rw [h.y_eq, h.z_eq, h'.y_eq, h'.z_eq, hcommitments]
  exact ⟨rfl, rfl⟩

theorem sum_c_modEq (hy : other.y = proof.y) (hz : other.z = proof.z) :
    other.c.sum ≡ proof.c.sum [MOD key.q.value] := by
  have htext : other.hashedText key pair = proof.hashedText key pair := by
    unfold hashedText
    rw [hy, hz]
  have hchallenge : other.totalShare key = proof.totalShare key := by
    rw [h.total_eq, h'.total_eq, PublicKey.challenge, PublicKey.challenge,
      commitmentText_eq_hashedText h.y_eq h.z_eq, commitmentText_eq_hashedText h'.y_eq h'.z_eq,
      htext]
  rw [← ZMod.natCast_eq_natCast_iff, ← h.shape.toZMod_totalShare, ← h'.shape.toZMod_totalShare,
    hchallenge]

theorem s_eq (hp : key.p.value.Prime) (hq : key.q.value.Prime) (howns : key.ownsPair pair = true)
    (hy : other.y = proof.y) (hz : other.z = proof.z) (hc : other.c = proof.c) :
    other.s = proof.s := by
  obtain ⟨hpad, hdata⟩ := PublicKey.ownsPair_iff.mp howns
  have hsize : other.size = proof.size := congrArg List.length hc
  have hlength : other.s.length = proof.s.length := by
    rw [h.shape.length_s, h'.shape.length_s, hsize]
  apply List.ext_getElem hlength
  intro i hi' hi
  obtain ⟨d, y, z, _, c, hd, hyi, hzi, -, hci, -⟩ :=
    h.exists_branchSatisfies hpad hdata (h.shape.length_s ▸ hi)
  have hbranch := h.branchSatisfies hpad hdata hd hyi hzi (List.getElem?_eq_getElem hi) hci
  rw [← hy] at hyi
  rw [← hz] at hzi
  rw [← hc] at hci
  have hbranch' := h'.branchSatisfies hpad hdata hd hyi hzi (List.getElem?_eq_getElem hi') hci
  have hrange := h'.shape.y_range y (List.mem_of_getElem? hyi)
  have hclass : (y : ZMod key.p.value) ≠ 0 := natCast_ne_zero_of_lt hrange.1 hrange.2
  exact (hbranch.response_modEq hp hq hbranch' hclass).eq_of_lt_of_lt
    (h'.shape.s_lt _ (List.getElem_mem hi')) (h.shape.s_lt _ (List.getElem_mem hi))

end Holds

theorem check_eq_ok_false (haccept : proof.check digest key pair domain = .ok true)
    (hp' : other.p = proof.p) (hq' : other.q = proof.q)
    (h : ¬ other.Holds digest key pair domain) :
    other.check digest key pair domain = .ok false := by
  obtain ⟨hmatch, howns, -⟩ := check_eq_ok_true_iff.mp haccept
  have hmatch' : other.matchesKey key = true := by
    rw [matchesKey, hp', hq']
    exact hmatch
  rw [check_of_matches hmatch' howns, Except.ok.injEq, ← Bool.not_eq_true, holds_iff]
  exact h

theorem check_other_commitments (haccept : proof.check digest key pair domain = .ok true)
    (hne : other ≠ proof) (hp' : other.p = proof.p) (hq' : other.q = proof.q)
    (hs : other.s = proof.s) (hc : other.c = proof.c) :
    other.check digest key pair domain = .ok false := by
  obtain ⟨-, -, hholds⟩ := check_eq_ok_true_iff.mp haccept
  refine check_eq_ok_false haccept hp' hq' fun hholds' => hne ?_
  obtain ⟨hy, hz⟩ := hholds.commitments_eq hholds' hs hc
  exact MembershipProof.ext hp' hq' hy hz hs hc

theorem check_other_answers (hp : key.p.value.Prime) (hq : key.q.value.Prime)
    (haccept : proof.check digest key pair domain = .ok true) (hne : other ≠ proof)
    (hp' : other.p = proof.p) (hq' : other.q = proof.q) (hy : other.y = proof.y)
    (hz : other.z = proof.z) (hlength : other.c.length = proof.c.length) {i : ℕ}
    (hagree : ∀ j ≠ i, other.c[j]? = proof.c[j]?) :
    other.check digest key pair domain = .ok false := by
  obtain ⟨-, howns, hholds⟩ := check_eq_ok_true_iff.mp haccept
  refine check_eq_ok_false haccept hp' hq' fun hholds' => hne ?_
  have hc : other.c = proof.c := eq_of_sum_modEq hlength hagree hholds.shape.c_lt
    hholds'.shape.c_lt (hholds.sum_c_modEq hholds' hy hz)
  have hs : other.s = proof.s := hholds.s_eq hholds' hp hq howns hy hz hc
  exact MembershipProof.ext hp' hq' hy hz hs hc

/-- An accepted proof is not accepted with other commitments, with one share replaced, or with any one
entry replaced. -/
theorem check_tampered (hp : key.p.value.Prime) (hq : key.q.value.Prime)
    (haccept : proof.check digest key pair domain = .ok true) :
    (∀ other : MembershipProof, other ≠ proof → other.p = proof.p → other.q = proof.q →
      other.s = proof.s → other.c = proof.c → other.check digest key pair domain = .ok false) ∧
    (∀ other : MembershipProof, other ≠ proof → other.p = proof.p → other.q = proof.q →
      other.y = proof.y → other.z = proof.z → other.c.length = proof.c.length →
      (∃ i : ℕ, ∀ j : ℕ, j ≠ i → other.c[j]? = proof.c[j]?) →
        other.check digest key pair domain = .ok false) ∧
    ∀ other : MembershipProof, proof.EditedOnce other →
      other.check digest key pair domain = .ok false := by
  refine ⟨fun other hne hp' hq' hs hc => check_other_commitments haccept hne hp' hq' hs hc,
    fun other hne hp' hq' hy hz hlength hagree => ?_, fun other hedit => ?_⟩
  · obtain ⟨i, hagree⟩ := hagree
    exact check_other_answers hp hq haccept hne hp' hq' hy hz hlength hagree
  · cases hedit with
    | y hold hnew =>
      have hne := set_ne_self hold hnew
      exact check_other_commitments haccept (fun h => hne (congrArg MembershipProof.y h)) rfl rfl
        rfl rfl
    | z hold hnew =>
      have hne := set_ne_self hold hnew
      exact check_other_commitments haccept (fun h => hne (congrArg MembershipProof.z h)) rfl rfl
        rfl rfl
    | @s i old new hold hnew =>
      have hne := set_ne_self hold hnew
      exact check_other_answers hp hq haccept (fun h => hne (congrArg MembershipProof.s h)) rfl rfl
        rfl rfl rfl fun (j : ℕ) (_ : j ≠ i) => rfl
    | c hold hnew =>
      have hne := set_ne_self hold hnew
      exact check_other_answers hp hq haccept (fun h => hne (congrArg MembershipProof.c h)) rfl rfl
        rfl rfl List.length_set fun j hj => List.getElem?_set_ne hj.symm

theorem check_tampered_second_branch :
    let key := PublicKey.small
    let pair : Pair := ⟨⟨key.p, 22, by decide⟩, ⟨key.p, 5, by decide⟩⟩
    let proof : MembershipProof := ⟨23, 11, [22, 1, 5], [17, 1, 22], [0, 0, 3], [4, 0, 6]⟩
    let domain : Domain := ⟨[0, 1, 5], by decide, by decide⟩
    key.p.value.Prime ∧ key.q.value.Prime ∧ ¬ key.InSubgroup pair.pad.value ∧
      proof.check standardDigest key pair domain = .ok true ∧
      (MembershipProof.mk 23 11 [22, 1, 5, 1] [17, 1] [0, 0, 3] [4, 0, 6]).check standardDigest key
        pair domain = .ok false ∧
      (MembershipProof.mk 23 11 [22, 1, 5] [17, 1, 22] [11, 3, 3] [4, 2, 6]).check standardDigest key
        pair domain = .ok false ∧
      (MembershipProof.mk 23 11 [22, 1, 5] [17, 1, 22] [0, 11, 3] [4, 0, 6]).check standardDigest key
        pair domain = .ok false := by
  intro key pair proof domain
  have hp : key.p.value.Prime := by decide
  have hq : key.q.value.Prime := by decide
  have haccept : proof.check standardDigest key pair domain = .ok true := by decide +kernel
  obtain ⟨hcommitments, hanswers, hedited⟩ := check_tampered hp hq haccept
  refine ⟨hp, hq, by decide, haccept, ?_, ?_, ?_⟩
  · exact hcommitments _ (by decide) rfl rfl rfl rfl
  · refine hanswers _ (by decide) rfl rfl rfl rfl rfl ⟨1, fun j hj => ?_⟩
    exact List.getElem?_set_ne (l := [4, 0, 6]) hj.symm
  · have hold : proof.s[1]? = some 0 := rfl
    have hnew : 11 ≠ 0 := by decide
    exact hedited _ (.s hold hnew)

end MembershipProof
end SecretTally

end
