import Mathlib
import SecretTally.Proofs.Ciphertext
import SecretTally.Proofs.Proof.Stretch

/-! What the proof of a sum discloses. At a value for which both summands have a branch, the composed
proof has the sum of their published answers, unless the value is the true one. So a composed proof is
as good as a fresh one only if the domains of the summands have no value in common, the true one apart;
else whoever knows the three proofs sees that a common value with another answer is the true one. -/

noncomputable section
namespace SecretTally
open Randomized

variable {key : PublicKey} {lhs rhs : Summand} {merged domain : Domain} {m₁ m₂ value : ℕ}
  {digest : Digest} {r : Exponent}

def freshProofs (digest : Digest) (key : PublicKey) (pair : Pair) (r : Exponent) (value : ℕ)
    (domain : Domain) : Set MembershipProof :=
  {proof | ∃ tape : Tape, (prove digest key pair r value domain tape).1 = .ok proof}

def composedProofs (digest : Digest) (key : PublicKey) (lhs rhs : Summand) (merged : Domain) :
    Set MembershipProof :=
  {proof | ∃ (tape : Tape) (product : Pair),
    (sumProof digest key lhs rhs merged tape).1 = .ok (product, proof)}

/-- Wherever both summands have an answer, `value` apart, the proof has the sum of the two. -/
def MembershipProof.KeepsCommon (proof : MembershipProof) (key : PublicKey) (lhs rhs : Summand)
    (merged : Domain) (value : ℕ) : Prop :=
  ∀ (i d : ℕ) (a b : Answer), merged.values[i]? = some d → d ≠ value →
    lhs.answer? key d = some a → rhs.answer? key d = some b →
      (proof.answers key)[i]? = some (a + b)

theorem freshProofs_eq (hvalue : value ∈ domain.values) :
    freshProofs digest key (Pair.encrypt key value r) r value domain =
      acceptedProofs digest key (Pair.encrypt key value r) domain := by
  apply Set.Subset.antisymm
  · rintro proof ⟨tape, hrun⟩
    have hreturns : Returns _ _ := @returns_prove Tape _ key value domain r digest hvalue
    obtain ⟨_, hout, t, answers, hlength, hring, rfl⟩ := hreturns tape
    cases hrun.symm.trans hout
    exact freshProof_mem_acceptedProofs digest hvalue hlength hring
  · intro proof hproof
    obtain ⟨draws, -, rfl⟩ := exists_draws_of_accepted hvalue hproof
    exact ⟨draws.tape, draws.prove_tape digest r hvalue⟩

theorem keepsCommon_of_kept (draws : KeptDraws key lhs rhs merged) :
    (draws.summed.proof digest r value).KeepsCommon key lhs rhs merged value := by
  intro i d a b hd hne hleft hright
  obtain ⟨hi, hget⟩ := List.getElem?_eq_some_iff.mp hd
  have hileft : i < draws.left.length := draws.left_kept.length_eq ▸ hi
  have hiright : i < draws.right.length := draws.right_kept.length_eq ▸ hi
  have ha : draws.left[i] = a := (draws.left_kept.get hi hileft).kept a (by simpa [hget] using hleft)
  have hb : draws.right[i] = b :=
    (draws.right_kept.get hi hiright).kept b (by simpa [hget] using hright)
  rw [draws.summed.answers_proof_of_ne digest r hd hne, KeptDraws.summed, List.getElem?_zipWith,
    List.getElem?_eq_getElem hileft, List.getElem?_eq_getElem hiright, ha, hb]

theorem exists_kept_of_keepsCommon {draws : FreshDraws key merged}
    (hkeeps : (draws.proof digest r value).KeepsCommon key lhs rhs merged value)
    (hvalue : value ∈ merged.values) : ∃ kept : KeptDraws key lhs rhs merged,
      kept.summed.proof digest r value = draws.proof digest r value := by
  have hanswers : List.Forall₂ (fun d sum => sum.InRing key.q ∧ (d ≠ value → ∀ a b,
      lhs.answer? key d = some a → rhs.answer? key d = some b → sum = a + b))
        merged.values draws.answers := by
    refine List.forall₂_iff_get.mpr ⟨draws.length_answers.symm, fun i hi hi' => ?_⟩
    refine ⟨draws.inRing _ (List.get_mem _ _), fun hne a b hleft hright => ?_⟩
    have hd : merged.values[i]? = some (merged.values.get ⟨i, hi⟩) := List.getElem?_eq_getElem hi
    have hsum := hkeeps i _ a b hd hne hleft hright
    rw [draws.answers_proof_of_ne digest r hd hne, List.getElem?_eq_getElem hi'] at hsum
    exact Option.some.inj hsum
  obtain ⟨left, right, hleft, hright, hagree⟩ := exists_stretched hanswers
  let kept : KeptDraws key lhs rhs merged := ⟨draws.t, left, right, draws.modulus_t, hleft, hright⟩
  exact ⟨kept, (FreshDraws.proof_eq_iff digest r hvalue).mpr ⟨rfl, hagree⟩⟩

theorem composedProofs_eq (hq : key.q.value.Prime) (hl : lhs.Encrypts key m₁)
    (hr : rhs.Encrypts key m₂) (hmem : m₁ + m₂ ∈ merged.values)
    (hunique : ∀ d ∈ merged.values, d ≡ m₁ + m₂ [MOD key.q.value] → d = m₁ + m₂) :
    composedProofs digest key lhs rhs merged =
      {proof ∈ acceptedProofs digest key (lhs.pair * rhs.pair) merged |
        proof.KeepsCommon key lhs rhs merged (m₁ + m₂)} := by
  rw [pair_mul_eq hl hr]
  apply Set.Subset.antisymm
  · rintro proof ⟨tape, product, hrun⟩
    obtain ⟨_, hout, draws, rfl⟩ := returns_sumProof_kept hq hl hr hunique hmem digest tape
    cases hrun.symm.trans hout
    exact ⟨draws.summed.proof_mem_acceptedProofs digest _ hmem, keepsCommon_of_kept draws⟩
  · rintro proof ⟨haccepted, hkeeps⟩
    obtain ⟨draws, -, rfl⟩ := exists_draws_of_accepted hmem haccepted
    obtain ⟨kept, hkept⟩ := exists_kept_of_keepsCommon hkeeps hmem
    have hrun := sumProof_tape hq hl hr hunique hmem digest kept
    rw [hkept] at hrun
    exact ⟨kept.tape, _, hrun⟩

theorem Answer.exists_ne {q : Modulus} {a : Answer} (ha : a.InRing q) :
    ∃ other : Answer, other.InRing q ∧ other ≠ a := by
  refine ⟨⟨a.s + .ofNat 1 q, a.c⟩, ⟨ha.modulus_s, ha.modulus_c⟩, fun h => ?_⟩
  have hs := congrArg (fun a => a.s.toZMod q) h
  have hone : ((1 : ℕ) : ZMod q.value) = (0 : ℕ) := by
    rw [Nat.cast_zero, ← Exponent.toZMod_ofNat, ← add_eq_left, ← Exponent.toZMod_add ha.modulus_s]
    exact hs
  have hlt : 1 < q.value := Nat.lt_of_lt_of_le (by decide) q.three_le
  exact absurd ((natCast_inj_of_lt hlt q.pos).mp hone) Nat.one_ne_zero

theorem forall_keepsCommon_iff (hl : lhs.Encrypts key m₁) (hr : rhs.Encrypts key m₂)
    (hvalue : value ∈ merged.values) :
    (∀ proof ∈ acceptedProofs digest key (Pair.encrypt key value r) merged,
      proof.KeepsCommon key lhs rhs merged value) ↔
        ∀ d ∈ merged.values, d ∈ lhs.domain.values → d ∈ rhs.domain.values → d = value := by
  constructor
  · intro hkeeps d hd hleft hright
    by_contra hne
    obtain ⟨i, hi⟩ := List.mem_iff_getElem?.mp hd
    obtain ⟨a, ha⟩ := hl.exists_answer?.mpr hleft
    obtain ⟨b, hb⟩ := hr.exists_answer?.mpr hright
    obtain ⟨other, hring, hother⟩ :=
      Answer.exists_ne (Answer.inRing_add (b := b) (Summand.inRing_of_answer? ha))
    let draws : FreshDraws key merged := ⟨.zero key.q, List.replicate merged.size other, rfl,
      List.length_replicate, fun a ha => List.eq_of_mem_replicate ha ▸ hring⟩
    have hsum := hkeeps _ (draws.proof_mem_acceptedProofs digest r hvalue) i d a b hi hne ha hb
    have hlt : i < merged.size := (List.getElem?_eq_some_iff.mp hi).1
    rw [draws.answers_proof_of_ne digest r hi hne, List.getElem?_replicate_of_lt hlt] at hsum
    exact hother (Option.some.inj hsum)
  · intro hcommon proof _ i d a b hd hne ha hb
    have hleft := hl.exists_answer?.mp ⟨a, ha⟩
    have hright := hr.exists_answer?.mp ⟨b, hb⟩
    exact absurd (hcommon d (List.mem_of_getElem? hd) hleft hright) hne

section Encrypted
variable {σ₁ σ₂ : Type} [Source σ₁] [Source σ₂] {s₁ : σ₁} {s₂ : σ₂} {a b : Ciphertext}
  {r₁ r₂ : Exponent} {domain₁ domain₂ : Domain}

/-- Of the accepted proofs, composing leads to those with the sum of the operands' answers wherever
both have one, the plaintext apart. These are all of them only if both have one nowhere else. -/
theorem composedProofs_encrypted (hq : key.q.value.Prime)
    (ha : (Ciphertext.encrypt key m₁ domain₁ s₁).1 = .ok (a, r₁))
    (hb : (Ciphertext.encrypt key m₂ domain₂ s₂).1 = .ok (b, r₂))
    (hsum : domain₁.sum domain₂ = .ok merged) (hwidth : merged.max - merged.min < key.q.value) :
    let lhs := a.summand r₁ domain₁
    let rhs := b.summand r₂ domain₂
    let product := a.pair * b.pair
    let fresh := freshProofs standardDigest key product (r₁ + r₂) (m₁ + m₂) merged
    let composed := composedProofs standardDigest key lhs rhs merged
    fresh = acceptedProofs standardDigest key product merged ∧
    composed = {proof ∈ fresh | proof.KeepsCommon key lhs rhs merged (m₁ + m₂)} ∧
    (composed = fresh ↔
      ∀ d ∈ merged.values, d ∈ domain₁.values → d ∈ domain₂.values → d = m₁ + m₂) := by
  intro lhs rhs product fresh composed
  have hl : lhs.Encrypts key m₁ := ((Tallied.encrypted ha).tallies hq).encrypts
  have hr : rhs.Encrypts key m₂ := ((Tallied.encrypted hb).tallies hq).encrypts
  have hmem : m₁ + m₂ ∈ merged.values :=
    Domain.add_mem_sum hsum (Ciphertext.mem_of_encrypt ha) (Ciphertext.mem_of_encrypt hb)
  have hunique : ∀ d ∈ merged.values, d ≡ m₁ + m₂ [MOD key.q.value] → d = m₁ + m₂ :=
    fun d hd hmod => Domain.eq_of_modEq hwidth hd hmem hmod
  have hpair : product = Pair.encrypt key (m₁ + m₂) (r₁ + r₂) := pair_mul_eq hl hr
  have hfresh : fresh = acceptedProofs standardDigest key product merged := by
    rw [hpair, ← freshProofs_eq hmem, ← hpair]
  have hcomposed : composed = {proof ∈ fresh | proof.KeepsCommon key lhs rhs merged (m₁ + m₂)} := by
    rw [hfresh]
    exact composedProofs_eq hq hl hr hmem hunique
  refine ⟨hfresh, hcomposed, ?_⟩
  rw [hcomposed, Set.sep_eq_self_iff_mem_true, hfresh, hpair]
  exact forall_keepsCommon_iff hl hr hmem

end Encrypted

/-- Two votes of one among zero and one: the composed proof tells that neither zero nor one is the
sum, whereas a fresh proof with other answers there is as good. -/
theorem composedProofs_encrypted_two :
    let key := PublicKey.small
    let ballot : Domain := ⟨[0, 1], by decide, by decide⟩
    let merged : Domain := ⟨[0, 1, 2], by decide, by decide⟩
    let a : Ciphertext := ⟨⟨⟨key.p, 18, by decide⟩, ⟨key.p, 18, by decide⟩⟩, 1,
      ⟨23, 11, [4, 4], [2, 12], [4, 9], [1, 10]⟩⟩
    let b : Ciphertext := ⟨⟨⟨key.p, 16, by decide⟩, ⟨key.p, 13, by decide⟩⟩, 1,
      ⟨23, 11, [6, 2], [13, 9], [5, 2], [3, 9]⟩⟩
    let r₁ := Exponent.ofNat 3 key.q
    let r₂ := Exponent.ofNat 2 key.q
    let fresh := freshProofs standardDigest key (a.pair * b.pair) (r₁ + r₂) 2 merged
    let composed := composedProofs standardDigest key (a.summand r₁ ballot) (b.summand r₂ ballot)
      merged
    key.q.value.Prime ∧
      (Ciphertext.encrypt key 1 ballot (Tape.mk [3, 1, 4, 1, 5, 9])).1 = .ok (a, r₁) ∧
      (Ciphertext.encrypt key 1 ballot (Tape.mk [2, 6, 5, 3, 5, 8])).1 = .ok (b, r₂) ∧
      ballot.sum ballot = .ok merged ∧ merged.max - merged.min < key.q.value ∧
      fresh = acceptedProofs standardDigest key (a.pair * b.pair) merged ∧ composed ≠ fresh := by
  intro key ballot merged a b r₁ r₂ fresh composed
  have hq : key.q.value.Prime := by decide
  have ha : (Ciphertext.encrypt key 1 ballot (Tape.mk [3, 1, 4, 1, 5, 9])).1 = .ok (a, r₁) := by
    decide +kernel
  have hb : (Ciphertext.encrypt key 1 ballot (Tape.mk [2, 6, 5, 3, 5, 8])).1 = .ok (b, r₂) := by
    decide +kernel
  have hsum : ballot.sum ballot = .ok merged := by decide
  have hwidth : merged.max - merged.min < key.q.value := by decide
  obtain ⟨hfresh, -, hiff⟩ := composedProofs_encrypted hq ha hb hsum hwidth
  refine ⟨hq, ha, hb, hsum, hwidth, hfresh, fun heq => ?_⟩
  exact absurd (hiff.mp heq 0 (by decide) (by decide) (by decide)) (by decide)

/-- A fresh proof for the sum of two ballots that composing them cannot lead to. -/
theorem composedProofs_ne_freshProofs :
    ¬ ∀ (key : PublicKey) (domain₁ domain₂ merged : Domain) (m₁ m₂ : ℕ) (a b : Ciphertext)
      (r₁ r₂ : Exponent) (tape₁ tape₂ : Tape), key.p.value.Prime → key.q.value.Prime →
      (Ciphertext.encrypt key m₁ domain₁ tape₁).1 = .ok (a, r₁) →
      (Ciphertext.encrypt key m₂ domain₂ tape₂).1 = .ok (b, r₂) →
      domain₁.sum domain₂ = .ok merged → merged.max - merged.min < key.q.value →
      composedProofs standardDigest key (a.summand r₁ domain₁) (b.summand r₂ domain₂) merged =
        freshProofs standardDigest key (a.pair * b.pair) (r₁ + r₂) (m₁ + m₂) merged := by
  intro hall
  let key := PublicKey.small
  let ballot : Domain := ⟨[0, 1], by decide, by decide⟩
  let merged : Domain := ⟨[0, 1, 2], by decide, by decide⟩
  let a : Ciphertext := ⟨⟨⟨key.p, 18, by decide⟩, ⟨key.p, 18, by decide⟩⟩, 1,
    ⟨23, 11, [4, 4], [2, 12], [4, 9], [1, 10]⟩⟩
  let b : Ciphertext := ⟨⟨⟨key.p, 16, by decide⟩, ⟨key.p, 13, by decide⟩⟩, 1,
    ⟨23, 11, [6, 2], [13, 9], [5, 2], [3, 9]⟩⟩
  let r₁ := Exponent.ofNat 3 key.q
  let r₂ := Exponent.ofNat 2 key.q
  have hq : key.q.value.Prime := by decide
  have ha : (Ciphertext.encrypt key 1 ballot (Tape.mk [3, 1, 4, 1, 5, 9])).1 = .ok (a, r₁) := by
    decide +kernel
  have hb : (Ciphertext.encrypt key 1 ballot (Tape.mk [2, 6, 5, 3, 5, 8])).1 = .ok (b, r₂) := by
    decide +kernel
  have heq := hall key ballot ballot merged 1 1 a b r₁ r₂ _ _ (by decide) hq ha hb (by decide)
    (by decide)
  let proof : MembershipProof := ⟨23, 11, [2, 3, 13], [3, 1, 4], [7, 3, 3], [9, 2, 1]⟩
  have hfresh : proof ∈ freshProofs standardDigest key (a.pair * b.pair) (r₁ + r₂) (1 + 1) merged :=
    ⟨Tape.mk [9, 7, 9, 3, 2], by decide +kernel⟩
  have hl : (a.summand r₁ ballot).Encrypts key 1 := ((Tallied.encrypted ha).tallies hq).encrypts
  have hr : (b.summand r₂ ballot).Encrypts key 1 := ((Tallied.encrypted hb).tallies hq).encrypts
  rw [← heq, composedProofs_eq hq hl hr (by decide) (by decide)] at hfresh
  have hkept := hfresh.2 0 0 ⟨.ofNat 4 key.q, .ofNat 1 key.q⟩ ⟨.ofNat 5 key.q, .ofNat 3 key.q⟩ rfl
    (by decide) (by decide) (by decide)
  exact absurd hkept (by decide)

end SecretTally

end
