import Mathlib
import SecretTally.Proof.Sum
import SecretTally.Proofs.Proof.Fresh

/-! Proofs of sums. The cross terms that are divided out are those by which the product of two
commitments misses the commitment of the summed answer, so the branches of a sum fit the product
pair; how many of them are open depends on the values of the merged domain alone. -/

noncomputable section
namespace SecretTally
open Randomized

variable {σ : Type} [Source σ] {key : PublicKey} {lhs rhs summand : Summand} {merged : Domain}
  {m m₁ m₂ : ℕ} {a b : Answer} {t : Exponent}

/-- The pair encrypts `m` under the randomness at hand, and the proof has a response and a share for
each value of its domain. Whether the proof holds is left open. -/
structure Summand.Encrypts (key : PublicKey) (summand : Summand) (m : ℕ) : Prop where
  pair_eq : summand.pair = Pair.encrypt key m summand.randomness
  modulus_eq : summand.randomness.modulus = key.q
  matches_key : summand.proof.matchesKey key = true
  length_s : summand.proof.s.length = summand.domain.size
  length_c : summand.proof.c.length = summand.domain.size

namespace Summand

theorem stretch_of_size_ne (hsize : summand.proof.size ≠ summand.domain.size) :
    (summand.stretch key merged : Randomized σ SumFailure (List Answer)) =
      throw (.refused (.badSum .proofLength)) := by
  rw [stretch, if_pos hsize]

theorem returns_answerAt {d : ℕ} (hsize : summand.proof.size = summand.domain.size)
    (hreaches : ∀ i, summand.domain.position? d = some i → i < summand.proof.s.length) :
    Returns (summand.answerAt key d : Randomized σ SumFailure Answer) (Answer.InRing key.q) := by
  unfold Summand.answerAt
  split
  · exact returns_answer key.q
  · next i hi =>
    have hshare : i < summand.proof.c.length := (Domain.position?_lt hi).trans_eq hsize.symm
    rw [List.getElem?_eq_getElem (hreaches i hi), List.getElem?_eq_getElem hshare]
    exact returns_pure ⟨rfl, rfl⟩

theorem inRing_of_stretched {as : List Answer}
    (h : List.Forall₂ (fun _ a => a.InRing key.q) merged.values as) :
    as.length = merged.size ∧ ∀ a ∈ as, a.InRing key.q := by
  refine ⟨h.length_eq.symm, fun a ha => ?_⟩
  obtain ⟨_, ha⟩ := exists_of_mem_right h ha
  exact ha

theorem returns_stretch_of_reaches (hsize : summand.proof.size = summand.domain.size)
    (hreaches : ∀ d ∈ merged.values, ∀ i, summand.domain.position? d = some i →
      i < summand.proof.s.length) :
    Returns (summand.stretch key merged : Randomized σ SumFailure (List Answer))
      fun as => as.length = merged.size ∧ ∀ a ∈ as, a.InRing key.q := by
  rw [Summand.stretch, if_neg (not_not.mpr hsize)]
  exact (returns_mapM fun d hd => returns_answerAt hsize (hreaches d hd)).imp
    fun _ => inRing_of_stretched

theorem yields_answerAt (d : ℕ) :
    Yields (summand.answerAt key d : Randomized σ SumFailure Answer) (Answer.InRing key.q) := by
  unfold Summand.answerAt
  split
  · exact (returns_answer key.q).yields
  · split
    · exact yields_pure ⟨rfl, rfl⟩
    · exact yields_throw _

theorem yields_stretch (summand : Summand) (merged : Domain) :
    Yields (summand.stretch key merged : Randomized σ SumFailure (List Answer))
      fun as => as.length = merged.size ∧ ∀ a ∈ as, a.InRing key.q := by
  unfold Summand.stretch
  split
  · exact yields_throw _
  · exact (yields_mapM fun d _ => yields_answerAt d).imp fun _ => inRing_of_stretched

end Summand

namespace Summand.Encrypts
variable (h : summand.Encrypts key m)
include h

theorem inGroup : summand.inGroup key = true := by
  rw [Summand.inGroup, h.matches_key, h.pair_eq, PublicKey.ownsPair_encrypt]
  rfl

theorem returns_stretch (merged : Domain) :
    Returns (summand.stretch key merged : Randomized σ SumFailure (List Answer))
      fun as => as.length = merged.size ∧ ∀ a ∈ as, a.InRing key.q :=
  Summand.returns_stretch_of_reaches h.length_c fun _ _ _ hi =>
    h.length_s ▸ Domain.position?_lt hi

end Summand.Encrypts

theorem sumCommitment_eq {data₁ data₂ : Point key}
    (hl : lhs.pair = ⟨key.g ^ lhs.randomness, data₁.element⟩)
    (hr : rhs.pair = ⟨key.g ^ rhs.randomness, data₂.element⟩)
    (hlm : lhs.randomness.modulus = key.q) (hrm : rhs.randomness.modulus = key.q)
    (ha : a.InRing key.q) (hb : b.InRing key.q) (d : ℕ) :
    sumCommitment key lhs rhs d a b = (a + b).commitment key (lhs.pair * rhs.pair) d := by
  have hpair : lhs.pair * rhs.pair =
      ⟨(lhs.randomness.toZMod key.q • key.gPoint
        + rhs.randomness.toZMod key.q • key.gPoint).element, (data₁ + data₂).element⟩ := by
    change Pair.mk (lhs.pair.pad * rhs.pair.pad) (lhs.pair.data * rhs.pair.data) = _
    simp only [hl, hr, PublicKey.g_eq, Point.element_pow, Point.element_mul]
  have hcross : (rhs.randomness * a.c + lhs.randomness * b.c).toZMod key.q =
      rhs.randomness.toZMod key.q * a.c.toZMod key.q
        + lhs.randomness.toZMod key.q * b.c.toZMod key.q := by
    rw [Exponent.toZMod_add (by simpa using hrm), Exponent.toZMod_mul hrm,
      Exponent.toZMod_mul hlm]
  rw [hpair, Answer.commitment_eq (Answer.inRing_add ha), Answer.s_add, Answer.c_add,
    Exponent.toZMod_add ha.modulus_s, Exponent.toZMod_add ha.modulus_c]
  simp only [sumCommitment, hl, hr, PublicKey.g_eq, Point.element_pow]
  rw [Answer.commitment_eq ha, Answer.commitment_eq hb]
  simp only [Point.element_mul, Point.element_div, hcross, Commitment.mk.injEq, Point.element_inj]
  constructor <;> module

theorem inGroup_sumBranch {blinding : Element} {d : ℕ} {answers : Answer × Answer}
    (ha : answers.1.InRing key.q) : (sumBranch key lhs rhs blinding t d answers).InGroup key := by
  unfold sumBranch
  split
  · exact Branch.inGroup_committed
  · exact Branch.inGroup_simulated (modulus_commitment_y answers.1 lhs.pair d)
      (modulus_commitment_z answers.1 lhs.pair d) (Answer.inRing_add ha)

theorem isOpen_sumBranch (blinding : Element) (d : ℕ) (answers : Answer × Answer) :
    (sumBranch key lhs rhs blinding t d answers).isOpen =
      isPlaintext key (lhs.pair * rhs.pair) blinding d := by
  unfold sumBranch
  split
  · next hd => exact hd.symm
  · next hd => exact (Bool.eq_false_iff.mpr hd).symm

theorem isPlaintext_iff (hq : key.q.value.Prime) (m d : ℕ) (r : Exponent) :
    isPlaintext key (Pair.encrypt key m r) (key.h ^ r) d = true ↔ d ≡ m [MOD key.q.value] := by
  have hleft : (Pair.encrypt key m r).data / key.encode d =
      (r.toZMod key.q • key.hPoint + ((m : ZMod key.q.value) - d) • key.fPoint).element := by
    rw [Pair.encrypt_eq, PublicKey.encode_eq, Point.element_div, Point.element_inj]
    module
  have hright : key.h ^ r = (r.toZMod key.q • key.hPoint).element := by
    rw [PublicKey.h_eq, Point.element_pow]
  rw [isPlaintext, decide_eq_true_eq, hleft, hright, Point.value_element_inj, add_eq_left, sub_smul,
    sub_eq_zero, PublicKey.smul_fPoint_inj hq, ← ZMod.natCast_eq_natCast_iff]
  exact eq_comm

theorem sumBranch_isOpen_of_pair (hq : key.q.value.Prime)
    (hpair : lhs.pair * rhs.pair = Pair.encrypt key m (lhs.randomness + rhs.randomness)) (d : ℕ)
    (answers : Answer × Answer) :
    (sumBranch key lhs rhs (key.h ^ (lhs.randomness + rhs.randomness)) t d answers).isOpen =
      decide (d ≡ m [MOD key.q.value]) := by
  rw [isOpen_sumBranch, hpair, Bool.eq_iff_iff, decide_eq_true_iff]
  exact isPlaintext_iff hq m d _

theorem Summand.Encrypts.exists_data (h : summand.Encrypts key m) :
    ∃ data : Point key, summand.pair = ⟨key.g ^ summand.randomness, data.element⟩ := by
  refine ⟨summand.randomness.toZMod key.q • key.hPoint
    + (m : ZMod key.q.value) • key.fPoint, ?_⟩
  rw [h.pair_eq, Pair.encrypt_eq, PublicKey.g_eq, Point.element_pow]

section Branches
variable (hl : lhs.Encrypts key m₁) (hr : rhs.Encrypts key m₂)
include hl hr

theorem pair_mul_eq : lhs.pair * rhs.pair =
    Pair.encrypt key (m₁ + m₂) (lhs.randomness + rhs.randomness) := by
  rw [hl.pair_eq, hr.pair_eq, Pair.encrypt_mul _ _ hl.modulus_eq]

theorem sumBranch_fits (hq : key.q.value.Prime) {answers : Answer × Answer}
    (ha : answers.1.InRing key.q) (hb : answers.2.InRing key.q) (d : ℕ) :
    (sumBranch key lhs rhs (key.h ^ (lhs.randomness + rhs.randomness)) t d answers).Fits key
      (m₁ + m₂) (lhs.randomness + rhs.randomness) t d := by
  obtain ⟨data₁, hdata₁⟩ := hl.exists_data
  obtain ⟨data₂, hdata₂⟩ := hr.exists_data
  have hpair := pair_mul_eq hl hr
  unfold sumBranch
  split
  · next hd =>
    rw [hpair, isPlaintext_iff hq, ← ZMod.natCast_eq_natCast_iff] at hd
    exact .committed hd
  · rw [sumCommitment_eq hdata₁ hdata₂ hl.modulus_eq hr.modulus_eq ha hb, hpair]
    exact .simulated (Answer.inRing_add ha)

theorem sumBranch_isOpen (hq : key.q.value.Prime) (d : ℕ) (answers : Answer × Answer) :
    (sumBranch key lhs rhs (key.h ^ (lhs.randomness + rhs.randomness)) t d answers).isOpen =
      decide (d ≡ m₁ + m₂ [MOD key.q.value]) :=
  sumBranch_isOpen_of_pair hq (pair_mul_eq hl hr) d answers

end Branches

structure SumDraws (key : PublicKey) (merged : Domain) where
  t : Exponent
  left : List Answer
  right : List Answer
  length_left : left.length = merged.size
  length_right : right.length = merged.size
  left_inRing : ∀ a ∈ left, a.InRing key.q
  right_inRing : ∀ a ∈ right, a.InRing key.q

namespace SumDraws

def branches (draws : SumDraws key merged) (lhs rhs : Summand) : List Branch :=
  sumBranches key lhs rhs merged draws.t draws.left draws.right

def proof (draws : SumDraws key merged) (digest : Digest) (lhs rhs : Summand) : MembershipProof :=
  closeProof digest key (lhs.pair * rhs.pair) draws.t (lhs.randomness + rhs.randomness)
    (draws.branches lhs rhs)

theorem length_zip (draws : SumDraws key merged) :
    (draws.left.zip draws.right).length = merged.values.length := by
  rw [List.length_zip, draws.length_left, draws.length_right, Nat.min_self, Domain.size]

theorem length_branches (draws : SumDraws key merged) :
    (draws.branches lhs rhs).length = merged.size := by
  rw [branches, sumBranches, List.length_zipWith, draws.length_zip, Nat.min_self, Domain.size]

section Branches
variable (hq : key.q.value.Prime) (hl : lhs.Encrypts key m₁) (hr : rhs.Encrypts key m₂)
include hq hl hr

theorem branches_fits (draws : SumDraws key merged) :
    List.Forall₂ (Branch.Fits key (m₁ + m₂) (lhs.randomness + rhs.randomness) draws.t)
      merged.values (draws.branches lhs rhs) := by
  refine forall₂_zipWith draws.length_zip fun d answers hanswers => ?_
  obtain ⟨hleft, hright⟩ := List.of_mem_zip hanswers
  exact sumBranch_fits hl hr hq (draws.left_inRing _ hleft) (draws.right_inRing _ hright) d

theorem countP_branches (draws : SumDraws key merged) :
    (draws.branches lhs rhs).countP Branch.isOpen =
      merged.values.countP fun d => d ≡ m₁ + m₂ [MOD key.q.value] :=
  countP_zipWith draws.length_zip (sumBranch_isOpen hl hr hq)

theorem exists_open_branch (draws : SumDraws key merged) {i d : ℕ}
    (hd : merged.values[i]? = some d) (hmod : d ≡ m₁ + m₂ [MOD key.q.value]) :
    ∃ b, (draws.branches lhs rhs)[i]? = some b ∧ b.isOpen = true := by
  obtain ⟨hi, _⟩ := List.getElem?_eq_some_iff.mp hd
  rw [← draws.length_zip] at hi
  refine ⟨sumBranch key lhs rhs (key.h ^ (lhs.randomness + rhs.randomness)) draws.t d
    (draws.left.zip draws.right)[i], ?_, ?_⟩
  · rw [branches, sumBranches, List.getElem?_zipWith, hd, List.getElem?_eq_getElem hi]
  · rw [sumBranch_isOpen hl hr hq]
    exact decide_eq_true hmod

theorem check_proof (digest : Digest) (draws : SumDraws key merged)
    (hpos : 0 < merged.values.countP fun d => d ≡ m₁ + m₂ [MOD key.q.value]) :
    (draws.proof digest lhs rhs).check digest key (lhs.pair * rhs.pair) merged =
      .ok (decide (((merged.values.countP fun d => d ≡ m₁ + m₂ [MOD key.q.value]) - 1)
        * (closingShare digest key (lhs.pair * rhs.pair) (draws.branches lhs rhs)).value
          ≡ 0 [MOD key.q.value])) := by
  have hfits := branches_fits hq hl hr draws
  have hcount := countP_branches hq hl hr draws
  rw [SumDraws.proof, pair_mul_eq hl hr, check_closeProof hfits List.prefix_rfl, hcount,
    Except.ok.injEq, decide_eq_decide]
  exact mul_share_eq_self_iff hpos

end Branches

end SumDraws

theorem sumProof_of_foreign (digest : Digest)
    (h : ¬ (lhs.inGroup key = true ∧ rhs.inGroup key = true)) :
    (sumProof digest key lhs rhs merged : Randomized σ SumFailure (Pair × MembershipProof)) =
      throw (.refused .foreignGroup) := by
  rw [← Bool.and_eq_true, Bool.not_eq_true] at h
  rw [sumProof, h]
  rfl

theorem ends_sumProof_stretched (digest : Digest) {P Q : List Answer → Prop}
    (hl : lhs.inGroup key = true) (hr : rhs.inGroup key = true)
    (hleft : Returns (lhs.stretch key merged : Randomized σ SumFailure (List Answer)) P)
    (hright : Returns (rhs.stretch key merged : Randomized σ SumFailure (List Answer)) Q) :
    Ends (sumProof digest key lhs rhs merged : Randomized σ SumFailure (Pair × MembershipProof))
      fun outcome => ∃ t left right, t.modulus = key.q ∧ P left ∧ Q right ∧ outcome =
        if (sumBranches key lhs rhs merged t left right).any Branch.isOpen then
          .ok (lhs.pair * rhs.pair, closeProof digest key (lhs.pair * rhs.pair) t
            (lhs.randomness + rhs.randomness) (sumBranches key lhs rhs merged t left right))
        else .error (.refused (.badSum .plaintextOutside)) := by
  rw [sumProof, hl, hr]
  refine hleft.bind_ends fun left hleft => ?_
  refine hright.bind_ends fun right hright => ?_
  refine (returns_random key.q).bind_ends fun t ht => ?_
  change Ends (if (sumBranches key lhs rhs merged t left right).any Branch.isOpen then _ else _) _
  split
  · next hopen => exact ends_pure ⟨t, left, right, ht, hleft, hright, (if_pos hopen).symm⟩
  · next hopen => exact ends_throw ⟨t, left, right, ht, hleft, hright, (if_neg hopen).symm⟩

theorem ends_sumProof (digest : Digest) (hl : lhs.Encrypts key m₁) (hr : rhs.Encrypts key m₂) :
    Ends (sumProof digest key lhs rhs merged : Randomized σ SumFailure (Pair × MembershipProof))
      fun outcome => ∃ draws : SumDraws key merged, outcome =
        if (draws.branches lhs rhs).any Branch.isOpen then
          .ok (lhs.pair * rhs.pair, draws.proof digest lhs rhs)
        else .error (.refused (.badSum .plaintextOutside)) := by
  intro s
  obtain ⟨t, left, right, -, hleft, hright, houtcome⟩ := ends_sumProof_stretched digest hl.inGroup
    hr.inGroup (hl.returns_stretch merged) (hr.returns_stretch merged) s
  exact ⟨⟨t, left, right, hleft.1, hright.1, hleft.2, hright.2⟩, houtcome⟩

theorem any_isOpen_branches (hq : key.q.value.Prime) (hl : lhs.Encrypts key m₁)
    (hr : rhs.Encrypts key m₂) (draws : SumDraws key merged) :
    (draws.branches lhs rhs).any Branch.isOpen = true ↔
      0 < merged.values.countP fun d => d ≡ m₁ + m₂ [MOD key.q.value] := by
  rw [← draws.countP_branches hq hl hr, List.countP_pos_iff, List.any_eq_true]

theorem returns_sumProof (digest : Digest) (hq : key.q.value.Prime) (hl : lhs.Encrypts key m₁)
    (hr : rhs.Encrypts key m₂)
    (hpos : 0 < merged.values.countP fun d => d ≡ m₁ + m₂ [MOD key.q.value]) :
    Returns (sumProof digest key lhs rhs merged :
      Randomized σ SumFailure (Pair × MembershipProof)) fun out =>
        ∃ draws : SumDraws key merged, out = (lhs.pair * rhs.pair, draws.proof digest lhs rhs) := by
  intro s
  obtain ⟨draws, hdraws⟩ := ends_sumProof digest hl hr s
  rw [if_pos ((any_isOpen_branches hq hl hr draws).mpr hpos)] at hdraws
  exact ⟨_, hdraws, draws, rfl⟩

/-- A sum is refused if no value is congruent to the plaintext. Any other is proven, and its proof is
accepted exactly if the closing share comes to nothing when it is counted for all such values but
one. -/
theorem sumProof_outcome (digest : Digest) (hq : key.q.value.Prime) (hl : lhs.Encrypts key m₁)
    (hr : rhs.Encrypts key m₂) (merged : Domain) (s : σ) :
    let matching := merged.values.countP fun d => d ≡ m₁ + m₂ [MOD key.q.value]
    let outcome := (sumProof digest key lhs rhs merged s).1
    (matching = 0 → ∃ fault : SumFault, outcome = .error (.refused (.badSum fault)) ∧
      fault.message = "combined plaintext is outside the merged domain") ∧
    (0 < matching → ∃ (proof : MembershipProof) (share : ℕ),
      outcome = .ok (lhs.pair * rhs.pair, proof) ∧
      proof.size = merged.size ∧ (∀ i d : ℕ, merged.values[i]? = some d →
        d ≡ m₁ + m₂ [MOD key.q.value] → proof.c[i]? = some share) ∧
      proof.check digest key (lhs.pair * rhs.pair) merged =
        .ok (decide ((matching - 1) * share ≡ 0 [MOD key.q.value])) ∧
      (matching = 1 → proof.check digest key (lhs.pair * rhs.pair) merged = .ok true)) := by
  intro matching outcome
  refine ⟨fun hzero => ?_, fun hpos => ?_⟩
  · obtain ⟨draws, hdraws⟩ := ends_sumProof digest hl hr s
    have hclosed : ¬ (draws.branches lhs rhs).any Branch.isOpen = true := fun hopen =>
      Nat.ne_of_gt ((any_isOpen_branches hq hl hr draws).mp hopen) hzero
    rw [if_neg hclosed] at hdraws
    exact ⟨_, hdraws, rfl⟩
  · obtain ⟨_, hdraws, draws, rfl⟩ := returns_sumProof digest hq hl hr hpos s
    have hcheck := draws.check_proof hq hl hr digest hpos
    refine ⟨_, _, hdraws, ?_, ?_, hcheck, fun hone => ?_⟩
    · rw [SumDraws.proof, size_closeProof, draws.length_branches]
    · intro i d hd hmod
      obtain ⟨b, hb, hopen⟩ := draws.exists_open_branch hq hl hr hd hmod
      exact closeProof_c_of_isOpen _ hb hopen
    · have hnone : (matching - 1) * (closingShare digest key (lhs.pair * rhs.pair)
          (draws.branches lhs rhs)).value ≡ 0 [MOD key.q.value] := by
        rw [hone, Nat.sub_self, zero_mul]
      exact hcheck.trans (congrArg Except.ok (decide_eq_true hnone))

theorem sumProof_outcome_nineteen :
    let q := PublicKey.small.q
    let lhs : Summand := ⟨Pair.encrypt .small 3 (.ofNat 2 q), ⟨23, 11, [], [9], [15, 40], [7, 30]⟩,
      .ofNat 2 q, ⟨[3, 8], by decide, by decide⟩⟩
    let rhs : Summand := ⟨Pair.encrypt .small 16 (.ofNat 5 q), ⟨23, 11, [], [], [2], [100]⟩,
      .ofNat 5 q, ⟨[1], by decide, by decide⟩⟩
    let merged : Domain := ⟨[8, 12, 19], by decide, by decide⟩
    let proof : MembershipProof := ⟨23, 11, [12, 1, 12], [18, 12, 18], [8, 5, 8], [2, 7, 2]⟩
    q.value.Prime ∧ lhs.Encrypts .small 3 ∧ rhs.Encrypts .small 16 ∧
      0 < (merged.values.countP fun d => d ≡ 3 + 16 [MOD q.value]) ∧
      (sumProof standardDigest .small lhs rhs merged
        (Tape.mk [3, 1, 4, 1, 5, 9, 2, 6, 5, 3, 5])).1 = .ok (lhs.pair * rhs.pair, proof) ∧
      proof.check standardDigest .small (lhs.pair * rhs.pair) merged = .ok false := by
  intro q lhs rhs merged proof
  have hq : q.value.Prime := by decide
  have hl : lhs.Encrypts .small 3 := ⟨rfl, rfl, rfl, rfl, rfl⟩
  have hr : rhs.Encrypts .small 16 := ⟨rfl, rfl, rfl, rfl, rfl⟩
  have hpos : 0 < (merged.values.countP fun d => d ≡ 3 + 16 [MOD q.value]) := by decide
  have hrun : (sumProof standardDigest .small lhs rhs merged
      (Tape.mk [3, 1, 4, 1, 5, 9, 2, 6, 5, 3, 5])).1 = .ok (lhs.pair * rhs.pair, proof) := by
    decide +kernel
  obtain ⟨_, share, hproof, _, hshare, hcheck, _⟩ :=
    (sumProof_outcome standardDigest hq hl hr merged
      (Tape.mk [3, 1, 4, 1, 5, 9, 2, 6, 5, 3, 5])).2 hpos
  cases hrun.symm.trans hproof
  cases hshare 0 8 rfl (by decide)
  exact ⟨hq, hl, hr, hpos, hrun, hcheck⟩

end SecretTally

end
